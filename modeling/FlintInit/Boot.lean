import FlintInit.Bookkeeping
import FlintInit.LoadedDefs
import FlintInit.CacheLoad

/-!
# Booting

`main` up to the supervisor loop: load the definitions, fill in the session
user, build the graph, delete stale readiness files and create the directories
they go to.  The readiness watchers `main` then spawns speak to the loop only
through the messages of a `World`.
-/

namespace FlintInit

open Collections

structure GlobalSection where
  /-- The login user that session services run as. -/
  sessionUser : Option String

structure FlintConfig where
  global : Option GlobalSection

namespace FlintConfig

def sessionUser (flintCfg : FlintConfig) : Option String :=
  flintCfg.global.bind GlobalSection.sessionUser

/-- Expand `%U` in the `user` field of every definition. -/
def applyTo (flintCfg : FlintConfig) (services : List ServiceDef) :
    List ServiceDef :=
  services.map (fun svc =>
    if svc.service.user = some "%U" then
      { svc with
        service := { svc.service with user := flintCfg.sessionUser } }
    else svc)

/-- Only the user of a definition is filled in. -/
theorem readyPaths_applyTo (flintCfg : FlintConfig)
    (services : List ServiceDef) :
    (flintCfg.applyTo services).map ServiceDef.readyPath =
      services.map ServiceDef.readyPath := by
  rw [applyTo, List.map_map]
  apply List.map_congr_left
  intro svc _
  rw [Function.comp_apply]
  split
  · rfl
  · rfl

end FlintConfig

/-- Why `main` does not get to the supervisor loop. -/
inductive BootStop where
  | load (e : LoadError)
  | noServices
  | graph (e : GraphError)
  | fault (fault : Fault)
  | readyDir (path : String) (e : IoError)

/-- How the loop over the readiness files ends. -/
inductive Cleared where
  | done
  | cannotCreate (path : String) (e : IoError)

/-- Delete stale readiness files and create their directories.  Returns the
paths passed to `remove_file`, in order. -/
def clearReady (createDirAll : String → Except IoError Unit) :
    List ServiceDef → List String × Cleared
  | [] => ([], .done)
  | svc :: rest =>
      match svc.readyPath with
      | none => clearReady createDirAll rest
      | some path =>
          match parent path with
          | none =>
              let cleared := clearReady createDirAll rest
              (path :: cleared.1, cleared.2)
          | some dir =>
              match createDirAll dir with
              | .error e => ([path], .cannotCreate dir e)
              | .ok () =>
                  let cleared := clearReady createDirAll rest
                  (path :: cleared.1, cleared.2)

/-- How `main` gets to the loop, or why it does not. -/
inductive Boot where
  | stopped (reason : BootStop)
  | entered (g : ServiceGraph) (services : List ServiceDef)

/-- What `main` reads from its surroundings. -/
structure Surroundings (Bytes : Type) where
  flintCfg : FlintConfig
  disk : Disk Bytes
  createDirAll : String → Except IoError Unit
  orders : BuildOrders

/-- `main` up to the supervisor loop: the paths passed to `remove_file`, and
how it goes on. -/
def boot (fromStr : String → Except String ServiceDef) (codec : Bincode)
    (env : Surroundings codec.Bytes) (dir : String) : List String × Boot :=
  match loadServicesCached fromStr codec env.disk dir with
  | .error e => ([], .stopped (.load e))
  | .ok rawServices =>
      let services := env.flintCfg.applyTo rawServices
      if services = [] then ([], .stopped .noServices)
      else
        match ServiceGraph.build env.orders services with
        | .error fault => ([], .stopped (.fault fault))
        | .ok (.error e) => ([], .stopped (.graph e))
        | .ok (.ok g) =>
            match clearReady env.createDirAll services with
            | (removed, .cannotCreate path e) =>
                (removed, .stopped (.readyDir path e))
            | (removed, .done) => (removed, .entered g services)

/-- Every path deleted is the readiness path of a service. `main` goes through
the services in order, ignores what deleting a file returns, and stops at the
first directory that it cannot create, so the paths deleted are those of a part
of the services. -/
theorem mem_clearReady {createDirAll : String → Except IoError Unit}
    {path : String} :
    ∀ {services : List ServiceDef},
      path ∈ (clearReady createDirAll services).1 →
      ∃ svc ∈ services, svc.readyPath = some path := by
  intro services
  induction services with
  | nil => intro h; cases h
  | cons svc rest ih =>
      have hlater : path ∈ (clearReady createDirAll rest).1 →
          ∃ svc' ∈ svc :: rest, svc'.readyPath = some path := by
        intro h
        obtain ⟨svc', hmem, hpath⟩ := ih h
        exact ⟨svc', List.mem_cons_of_mem _ hmem, hpath⟩
      intro h
      rw [clearReady] at h
      split at h
      · exact hlater h
      · rename_i own hown
        have hfirst : path = own → ∃ svc' ∈ svc :: rest,
            svc'.readyPath = some path := fun heq =>
          ⟨svc, List.mem_cons_self, heq ▸ hown⟩
        split at h
        · rcases List.mem_cons.mp h with h | h
          · exact hfirst h
          · exact hlater h
        · split at h
          · exact hfirst (List.mem_singleton.mp h)
          · rcases List.mem_cons.mp h with h | h
            · exact hfirst h
            · exact hlater h

/-- A loop that runs through has deleted the paths of all services. -/
theorem clearReady_done {createDirAll : String → Except IoError Unit} :
    ∀ {services : List ServiceDef},
      (clearReady createDirAll services).2 = .done →
      (clearReady createDirAll services).1 =
        services.filterMap ServiceDef.readyPath := by
  intro services
  induction services with
  | nil => intro _; rfl
  | cons svc rest ih =>
      intro hdone
      rw [clearReady] at hdone ⊢
      rw [List.filterMap_cons]
      cases hpath : svc.readyPath with
      | none =>
          rw [hpath] at hdone
          exact ih hdone
      | some path =>
          rw [hpath] at hdone
          dsimp only at hdone ⊢
          split at hdone
          · exact congrArg (path :: ·) (ih hdone)
          · split at hdone
            · cases hdone
            · exact congrArg (path :: ·) (ih hdone)

/-- **What a boot deletes.**  Every path it deletes is one of a definition
that was loaded, and a boot that enters the loop has deleted them all. -/
theorem boot_deletes (fromStr : String → Except String ServiceDef)
    (codec : Bincode) (env : Surroundings codec.Bytes) (dir : String) :
    (∀ path ∈ (boot fromStr codec env dir).1, ∃ raw,
      loadServicesCached fromStr codec env.disk dir = .ok raw ∧
        some path ∈ raw.map ServiceDef.readyPath) ∧
    ∀ g services, (boot fromStr codec env dir).2 = .entered g services →
      ServiceGraph.build env.orders services = .ok (.ok g) ∧
      (boot fromStr codec env dir).1 =
        services.filterMap ServiceDef.readyPath ∧
      ∃ raw, loadServicesCached fromStr codec env.disk dir = .ok raw ∧
        services = env.flintCfg.applyTo raw := by
  unfold boot
  cases hload : loadServicesCached fromStr codec env.disk dir with
  | error e => exact ⟨fun _ h => (nomatch h), fun _ _ h => nomatch h⟩
  | ok raw =>
      dsimp only
      split
      · exact ⟨fun _ h => (nomatch h), fun _ _ h => nomatch h⟩
      · cases hbuild : ServiceGraph.build env.orders
            (env.flintCfg.applyTo raw) with
        | error fault =>
            exact ⟨fun _ h => (nomatch h), fun _ _ h => nomatch h⟩
        | ok built =>
            cases built with
            | error e =>
                exact ⟨fun _ h => (nomatch h), fun _ _ h => nomatch h⟩
            | ok g =>
                have hpaths : ∀ path ∈ (clearReady env.createDirAll
                    (env.flintCfg.applyTo raw)).1, ∃ raw',
                    (Except.ok raw : Except LoadError _) = .ok raw' ∧
                      some path ∈ raw'.map ServiceDef.readyPath := by
                  intro path h
                  obtain ⟨svc, hsvc, hpath⟩ := mem_clearReady h
                  refine ⟨raw, rfl, ?_⟩
                  rw [← env.flintCfg.readyPaths_applyTo, ← hpath]
                  exact List.mem_map_of_mem hsvc
                have hdone : (clearReady env.createDirAll
                    (env.flintCfg.applyTo raw)).2 = .done → _ :=
                  clearReady_done
                dsimp only
                split
                · rename_i hclear
                  rw [hclear] at hpaths
                  exact ⟨hpaths, fun _ _ h => nomatch h⟩
                · rename_i hclear
                  rw [hclear] at hpaths hdone
                  refine ⟨hpaths, ?_⟩
                  intro g' services h
                  cases h
                  exact ⟨hbuild, hdone rfl, raw, rfl, rfl⟩

end FlintInit

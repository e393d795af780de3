import FlintInit.Text

/-!
# Service definitions

The record a service file is read into, and the check of its
security-sensitive field.  `validate_eq_ok_iff` states what the check lets
through: a ready path that is absolute, has no `..` component and lies under
one of the two runtime directories.
-/

namespace FlintInit

inductive RestartPolicy where
  | always
  | onFailure
  | never
  deriving DecidableEq

structure ServiceSection where
  name : String
  exec : String
  restart : Option RestartPolicy
  /-- Unix user to run the service as. -/
  user : Option String
  /-- Explicit argument list; when set, `exec` is the binary path. -/
  args : Option (List String)
  deriving DecidableEq

structure DepsSection where
  after : List String
  needs : List String
  deriving DecidableEq

inductive ReadyStrategy where
  | pidfile
  | socket
  deriving DecidableEq

structure ReadySection where
  strategy : ReadyStrategy
  path : Option String
  deriving DecidableEq

structure ResourcesSection where
  oomScoreAdj : Option Int
  deriving DecidableEq

/-- Top-level service file. -/
structure ServiceDef where
  service : ServiceSection
  deps : Option DepsSection
  ready : Option ReadySection
  resources : Option ResourcesSection
  deriving DecidableEq

namespace ServiceDef

/-- The name a service is known by. -/
def name (svc : ServiceDef) : String := svc.service.name

/-- The `needs` list; empty without a `deps` section. -/
def needs (svc : ServiceDef) : List String :=
  match svc.deps with
  | none => []
  | some deps => deps.needs

/-- Both dependency lists, `after` first. -/
def allDeps (svc : ServiceDef) : List String :=
  match svc.deps with
  | none => []
  | some deps => deps.after ++ deps.needs

/-- The path of the readiness file, if one is configured. -/
def readyPath (svc : ServiceDef) : Option String :=
  svc.ready.bind ReadySection.path

/-- What a service needs is among all that it waits for. -/
theorem mem_allDeps_of_mem_needs {svc : ServiceDef} {d : String}
    (h : d ∈ svc.needs) : d ∈ svc.allDeps := by
  unfold needs at h
  unfold allDeps
  cases hdeps : svc.deps with
  | none => simp [hdeps] at h
  | some deps => simpa [hdeps] using Or.inr (by simpa [hdeps] using h)

/-- Validate security-sensitive fields: `ready.path` must be absolute, must
not contain `..`, and must be under `/run/` or `/var/run/`. -/
def validate (svc : ServiceDef) : Except String Unit :=
  match svc.ready with
  | none => .ok ()
  | some ready =>
      match ready.path with
      | none => .ok ()
      | some path =>
          let refuse (reason : String) : Except String Unit :=
            .error ("service '" ++ svc.service.name ++ "': ready.path '" ++
              path ++ "' " ++ reason)
          if !isAbsolute path then
            refuse "must be absolute"
          else if (components path).any (· == .parentDir) then
            refuse "contains '..' traversal"
          else if !startsWith path "/run/" && !startsWith path "/var/run/" then
            refuse "must be under /run/ or /var/run/"
          else
            .ok ()

end ServiceDef

/-- A service with a name, its two dependency lists and nothing else set. -/
def makeService (name : String) (after needs : List String) : ServiceDef where
  service := ⟨name, "/bin/" ++ name, none, none, none⟩
  deps := if after = [] ∧ needs = [] then none else some ⟨after, needs⟩
  ready := none
  resources := none

/-- A path in one of the runtime directories, spelled without `..`. -/
structure RuntimePath (path : String) : Prop where
  absolute : isAbsolute path = true
  noParent : Component.parentDir ∉ components path
  confined : startsWith path "/run/" = true ∨
    startsWith path "/var/run/" = true

/-- **What validation accepts.**  A definition passes exactly when its ready
path, if it has one, is a runtime path. -/
theorem ServiceDef.validate_eq_ok_iff (svc : ServiceDef) :
    svc.validate = .ok () ↔ ∀ path ∈ svc.readyPath, RuntimePath path := by
  unfold validate readyPath
  cases hready : svc.ready with
  | none => simp
  | some ready =>
      cases hpath : ready.path with
      | none => simp [hpath]
      | some path =>
          simp only [hpath, Option.bind_some, Option.mem_def,
            Option.some.injEq, forall_eq']
          by_cases habs : isAbsolute path = true
          · by_cases hparent : Component.parentDir ∈ components path
            · have hno : ¬ RuntimePath path := fun h => h.noParent hparent
              simp [habs, hparent, hno]
            · by_cases hrun : startsWith path "/run/" = true ∨
                  startsWith path "/var/run/" = true
              · have hyes : RuntimePath path := ⟨habs, hparent, hrun⟩
                rcases hrun with h | h <;> simp [habs, hparent, h, hyes]
              · have hno : ¬ RuntimePath path := fun h => hrun h.confined
                simp only [not_or, Bool.not_eq_true] at hrun
                simp [habs, hparent, hrun.1, hrun.2, hno]
          · have hno : ¬ RuntimePath path := fun h => habs h.absolute
            simp [habs, hno]

end FlintInit

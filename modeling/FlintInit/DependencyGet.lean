import FlintInit.FlintCtl
import Mathlib.Data.Set.Finite.Basic

/-!
# The dependencies `flint-ctl get` installs

`fetch_and_install` keeps no record of the services it has visited but the
disk, and a list of missing dependencies is made before the file it belongs to
is written.  An installed service can therefore be entered again through the
question whether to overwrite it, and no file is new afterwards.

What goes down at every call is `rank`: twice the number of published services
without a file, and one more where the service of the call has a file.  A call
made from the loop is for a dependency that had no file when the list was
made.  If it still has none, the call of the loop either wrote a file or
entered through the question; if it has one by now, that file is new.
-/

namespace FlintInit.Get

variable {File : Type} {locate : String → File} {get : String → Response}
  {fromStr : String → Except String ServiceDef} {distro : String}
  {fs : FileSystem locate} {s s' s'' : Session fs} {name : String}

/-! ## Termination -/

section Rank

variable {offered : Finset String}

/-- The services of `offered` without a file. -/
def absent (offered : Finset String) (s : Session fs) : Finset String :=
  offered.filter (fun name => fs.onDisk s.disk (servicePath name) = false)

/-- What is offered and has no file. -/
@[simp] theorem mem_absent : name ∈ absent offered s ↔
    name ∈ offered ∧ fs.onDisk s.disk (servicePath name) = false := by
  simp [absent]

/-- Files do not disappear, so no service becomes absent. -/
theorem absent_subset (h : Extends s s') :
    absent offered s' ⊆ absent offered s := by
  intro name hname
  rw [mem_absent] at hname ⊢
  refine ⟨hname.1, Bool.eq_false_iff.mpr fun hthere => ?_⟩
  rw [h.onDisk _ hthere] at hname
  exact absurd hname.2 (by simp)

/-- A new file of an offered service leaves one less. -/
theorem card_absent_lt (h : Extends s s') (hoffered : name ∈ offered)
    (hbefore : fs.onDisk s.disk (servicePath name) = false)
    (hafter : fs.onDisk s'.disk (servicePath name) = true) :
    (absent offered s').card < (absent offered s).card := by
  apply Finset.card_lt_card
  refine ⟨absent_subset h, fun hsub => ?_⟩
  have hmem := hsub (mem_absent.mpr ⟨hoffered, hbefore⟩)
  rw [mem_absent, hafter] at hmem
  exact absurd hmem.2 (by simp)

/-- How many calls deep the installation of `name` can go. -/
def rank (offered : Finset String) (name : String) (s : Session fs) : Nat :=
  2 * (absent offered s).card +
    if fs.onDisk s.disk (servicePath name) then 1 else 0

/-- There is always room for one more call: what is offered is absent or has
its file. -/
theorem rank_pos (hoffered : name ∈ offered) : 0 < rank offered name s := by
  unfold rank
  split
  · omega
  · rename_i hthere
    have hpos : 0 < (absent offered s).card :=
      Finset.card_pos.mpr
        ⟨name, mem_absent.mpr ⟨hoffered, Bool.eq_false_iff.mpr hthere⟩⟩
    omega

/-- A dependency that was missing when the file of `name` was written ranks
below `name`, whatever has happened in between. -/
theorem rank_lt {missing : List String} {tomlStr : String} {defn : ServiceDef}
    {dep : String}
    (hwritten : Written get fromStr distro name s missing s' tomlStr defn)
    (hext : Extends s' s'') (hname : name ∈ offered) (hdep : dep ∈ offered)
    (hmissing : dep ∈ missing) :
    rank offered dep s'' < rank offered name s := by
  have hfresh : fs.onDisk s.disk (servicePath dep) = false := by
    rw [hwritten.missing] at hmissing
    simpa using (List.mem_filter.mp hmissing).2
  have hall : Extends s s'' := hwritten.extends.trans hext
  have hle : (absent offered s'').card ≤ (absent offered s).card :=
    Finset.card_le_card (absent_subset hall)
  unfold rank
  cases hbefore : fs.onDisk s.disk (servicePath name) with
  | false =>
      have hinstalled := hext.onDisk _ (hwritten.installed _ rfl)
      have hlt := card_absent_lt hall hname hbefore hinstalled
      split <;> simp <;> omega
  | true =>
      split
      · rename_i hthere
        have hlt := card_absent_lt hall hdep hfresh hthere
        simp
        omega
      · simp
        omega

/-- A call deep enough for the rank of its service comes to an end. The
induction is on the depth: when the file of the service has been written, each
of the dependencies that were missing has a smaller rank, and the loop over
them only lowers it. -/
theorem fetchAndInstall_ne_running
    (hoffered : ∀ name tomlStr,
      fetchServiceToml get distro name = .ok tomlStr → name ∈ offered)
    {depth : Nat} (hpos : 0 < depth)
    (hrank : name ∈ offered → rank offered name s < depth) :
    (fetchAndInstall get fromStr distro depth name s).1 ≠ .running := by
  induction depth generalizing name s with
  | zero => omega
  | succ depth ih =>
      obtain ⟨s₁, hmay, heq⟩ | ⟨s₁, e, hmay, heq⟩ |
        ⟨s₁, missing, s₂, tomlStr, defn, hmay, hwritten, heq⟩ :=
        fetchAndInstall_cases get fromStr distro depth name s
      · simp [heq]
      · simp [heq, Session.exit]
      · rw [heq]
        have hname := hoffered name tomlStr hwritten.fetched
        have hsame : rank offered name s₁ = rank offered name s := by
          simp only [rank, absent, (mayWrite_eq hmay).1]
        have hdepth := hrank hname
        have hfirst : 0 < rank offered name s := rank_pos hname
        -- at every turn of the loop the files of `s₂` are still there
        refine (installDeps_post
          (fun ending s' => ending ≠ .running ∧ Extends s₂ s')
          (fun s' _ h => ⟨h.1, h.2.trans (.record s' _)⟩)
          (fun s' _ h => ⟨h.1, h.2.trans (.prompt s' _)⟩)
          (fun dep hdep s' h => ⟨?_, h.2.trans
            (extends_fetchAndInstall depth dep s')⟩)
          ⟨by simp, .refl s₂⟩).1
        apply ih (by omega)
        intro hdepOffered
        have hlt := rank_lt hwritten h.2 hname hdepOffered hdep
        omega

end Rank

/-! ## The bound does not matter -/

/-- A loop whose calls all end is not changed by a deeper bound. The session is
passed from one call to the next, so that each of them ends in the session in
which it is really made. -/
theorem installDeps_stable
    {install install' : String → Session fs → Ending × Session fs}
    (h : ∀ dep s, (install dep s).1 ≠ .running →
      install' dep s = install dep s) {missing skipped : List String}
    (hend : (installDeps install name missing skipped s).1 ≠ .running) :
    installDeps install' name missing skipped s =
      installDeps install name missing skipped s := by
  induction missing generalizing skipped s with
  | nil => rfl
  | cons dep rest ih =>
      rw [installDeps] at hend
      rw [installDeps, installDeps]
      split
      all_goals rename_i s₁ hprompt; rw [hprompt] at hend; dsimp only at hend
      · cases hcall : install dep s₁ with
        | mk ending s₂ =>
            rw [hcall] at hend
            have hsame : install' dep s₁ = (ending, s₂) := by
              rw [h dep s₁, hcall]
              rw [hcall]
              rintro rfl
              exact hend rfl
            rw [hsame]
            cases ending with
            | returned => exact ih hend
            | exited => rfl
            | running => rfl
      · exact ih hend

/-- A call that comes to an end is not changed by a greater depth. -/
theorem fetchAndInstall_stable {depth : Nat}
    (hend : (fetchAndInstall get fromStr distro depth name s).1 ≠ .running) :
    fetchAndInstall get fromStr distro (depth + 1) name s =
      fetchAndInstall get fromStr distro depth name s := by
  induction depth generalizing name s with
  | zero => exact absurd rfl hend
  | succ depth ih =>
      rw [fetchAndInstall] at hend
      rw [fetchAndInstall, fetchAndInstall]
      split
      · rfl
      · rename_i s₁ hmay
        rw [hmay] at hend
        dsimp only at hend
        split
        · rfl
        · rename_i missing s₂ hwrite
          rw [hwrite] at hend
          exact installDeps_stable (fun dep s => ih) hend

/-- So every greater depth gives the same end and the same session. -/
theorem fetchAndInstall_stable_le {depth fuel : Nat}
    (hend : (fetchAndInstall get fromStr distro depth name s).1 ≠ .running)
    (hle : depth ≤ fuel) :
    fetchAndInstall get fromStr distro fuel name s =
      fetchAndInstall get fromStr distro depth name s := by
  induction fuel, hle using Nat.le_induction with
  | base => rfl
  | succ fuel _ ih =>
      rw [fetchAndInstall_stable (by rwa [ih]), ih]

/-! ## Every dependency is accounted for -/

/-- Whatever a written definition needs is on the disk, or the service it was
written for is named together with it in a warning. -/
def Covered (fromStr : String → Except String ServiceDef)
    (onDisk : String → Bool) (events : List Event) : Prop :=
  ∀ path content, .wrote path content ∈ events →
    ∃ n defn, path = servicePath n ∧ fromStr content = .ok defn ∧
      ∀ dep ∈ defn.needs, onDisk (servicePath dep) = true ∨
        .stderr (missingWarning n dep) ∈ events

section Covered

variable {onDisk onDisk' : String → Bool} {events events' : List Event}

/-- Where no definition is written there is no need to cover. -/
theorem Covered.of_no_write
    (h : ∀ path content, Event.wrote path content ∉ events) :
    Covered fromStr onDisk events :=
  fun path content hmem => absurd hmem (h path content)

/-- Two stretches are covered together, if the second one removes no file that
covers a need of the first. -/
theorem Covered.append (h : Covered fromStr onDisk events)
    (h' : Covered fromStr onDisk' events')
    (hkeeps : ∀ path, onDisk path = true → onDisk' path = true) :
    Covered fromStr onDisk' (events ++ events') := by
  intro path content hmem
  rcases List.mem_append.mp hmem with hmem | hmem
  · obtain ⟨n, defn, hpath, hparse, hneeds⟩ := h path content hmem
    refine ⟨n, defn, hpath, hparse, fun dep hdep => ?_⟩
    rcases hneeds dep hdep with hthere | hwarned
    · exact .inl (hkeeps _ hthere)
    · exact .inr (List.mem_append_left _ hwarned)
  · obtain ⟨n, defn, hpath, hparse, hneeds⟩ := h' path content hmem
    refine ⟨n, defn, hpath, hparse, fun dep hdep => ?_⟩
    exact (hneeds dep hdep).imp_right (List.mem_append_right _)

/-- What is printed before takes nothing back. -/
theorem Covered.after_quiet
    (hquiet : ∀ path content, Event.wrote path content ∉ events)
    (h : Covered fromStr onDisk events') :
    Covered fromStr onDisk (events ++ events') :=
  (Covered.of_no_write hquiet).append h (fun _ hpath => hpath)

end Covered

/-- The loop over the dependencies that were declined prints one warning for
each, and does nothing else. -/
theorem foldl_warnings (skipped : List String) (s : Session fs) :
    skipped.foldl (fun s dep => s.record (.stderr (missingWarning name dep)))
        s =
      { s with log := s.log ++
          skipped.map (fun dep => .stderr (missingWarning name dep)) } := by
  induction skipped generalizing s with
  | nil => simp
  | cons dep rest ih =>
      rw [List.foldl_cons, ih]
      simp [Session.record]

/-- The loop, when its calls leave a file for their service and everything
they wrote covered: each missing dependency has a file afterwards or is
warned about. -/
theorem installDeps_covered
    {install : String → Session fs → Ending × Session fs}
    (hext : ∀ dep s, Extends s (install dep s).2)
    (hinstall : ∀ dep s s', install dep s = (.returned, s') →
      fs.onDisk s'.disk (servicePath dep) = true ∧
        ∃ during, s'.log = s.log ++ during ∧
          Covered fromStr (fs.onDisk s'.disk) during)
    {missing skipped : List String}
    (h : installDeps install name missing skipped s = (.returned, s')) :
    ∃ during, s'.log = s.log ++ during ∧
      Covered fromStr (fs.onDisk s'.disk) during ∧
      (∀ dep ∈ missing, fs.onDisk s'.disk (servicePath dep) = true ∨
        .stderr (missingWarning name dep) ∈ during) ∧
      ∀ dep ∈ skipped, .stderr (missingWarning name dep) ∈ during := by
  induction missing generalizing skipped s with
  | nil =>
      rw [installDeps, foldl_warnings] at h
      cases h
      refine ⟨_, rfl, .of_no_write (by simp), by simp, fun dep hdep => ?_⟩
      exact List.mem_map_of_mem hdep
  | cons dep rest ih =>
      rw [installDeps] at h
      split at h
      · -- the dependency is fetched
        rename_i s₁ hprompt
        have hlog : s₁.log = s.log ++ [.stdout (requiresQuestion name dep)] :=
          congrArg (fun r => r.2.log) hprompt.symm
        split at h
        all_goals rename_i s₂ hcall
        · obtain ⟨hthere, first, hfirst, hcov⟩ := hinstall dep s₁ s₂ hcall
          have hkeeps : Extends s₂ s' := by
            have hloop := extends_installDeps name hext rest skipped s₂
            rwa [h] at hloop
          obtain ⟨after, hafter, hcov', hrest, hskipped⟩ := ih h
          refine ⟨[.stdout (requiresQuestion name dep)] ++ (first ++ after),
            by rw [hafter, hfirst, hlog]; simp, ?_, ?_,
            fun dep' hdep' => by simp [hskipped dep' hdep']⟩
          · exact (hcov.append hcov' hkeeps.onDisk).after_quiet (by simp)
          · intro dep' hdep'
            rcases List.mem_cons.mp hdep' with rfl | hdep'
            · exact .inl (hkeeps.onDisk _ hthere)
            · exact (hrest dep' hdep').imp_right (by simp +contextual)
        · cases h
        · cases h
      · -- it is skipped
        rename_i s₁ hprompt
        have hlog : s₁.log = s.log ++ [.stdout (requiresQuestion name dep)] :=
          congrArg (fun r => r.2.log) hprompt.symm
        obtain ⟨after, hafter, hcov, hrest, hskipped⟩ := ih h
        refine ⟨[.stdout (requiresQuestion name dep)] ++ after,
          by rw [hafter, hlog]; simp, ?_, ?_, ?_⟩
        · exact hcov.after_quiet (by simp)
        · intro dep' hdep'
          rcases List.mem_cons.mp hdep' with rfl | hdep'
          · exact .inr (by simp [hskipped dep' (by simp)])
          · exact (hrest dep' hdep').imp_right (by simp +contextual)
        · intro dep' hdep'
          simp [hskipped dep' (by simp [hdep'])]

/-- A call that returns leaves a file for its service, and everything it wrote
is covered. -/
theorem covered_of_returned {depth : Nat}
    (h : fetchAndInstall get fromStr distro depth name s = (.returned, s')) :
    fs.onDisk s'.disk (servicePath name) = true ∧
      ∃ during, s'.log = s.log ++ during ∧
        Covered fromStr (fs.onDisk s'.disk) during := by
  induction depth generalizing name s s' with
  | zero => cases h
  | succ depth ih =>
      obtain ⟨s₁, hmay, heq⟩ | ⟨s₁, e, hmay, heq⟩ |
        ⟨s₁, missing, s₂, tomlStr, defn, hmay, hwritten, heq⟩ :=
        fetchAndInstall_cases get fromStr distro depth name s
      all_goals
        rw [heq] at h
        obtain ⟨-, asked, hasked, hquiet⟩ := mayWrite_eq hmay
      · cases h
        exact ⟨onDisk_of_mayWrite hmay, asked, hasked, .of_no_write hquiet⟩
      · cases h
      · have hext : ∀ dep (s : Session fs), Extends s
            (fetchAndInstall get fromStr distro depth dep s).2 :=
          extends_fetchAndInstall depth
        obtain ⟨after, hafter, hcov, hmissing, -⟩ :=
          installDeps_covered hext (fun dep s s' => ih) h
        have hkeeps : Extends s₂ s' := by
          have hloop := extends_installDeps name hext missing [] s₂
          rwa [h] at hloop
        refine ⟨hkeeps.onDisk _ (hwritten.installed _ rfl), asked ++
          ([.wrote (servicePath name) tomlStr,
            .stdout ("installed: " ++ servicePath name)] ++ after), ?_, ?_⟩
        · rw [hafter, hwritten.log, hasked]
          simp
        · apply Covered.after_quiet hquiet
          intro path content hmem
          simp only [List.cons_append, List.nil_append, List.mem_cons,
            Event.wrote.injEq, reduceCtorEq, false_or] at hmem
          rcases hmem with ⟨rfl, rfl⟩ | hmem
          · refine ⟨name, defn, rfl, hwritten.parsed, fun dep hdep => ?_⟩
            -- either it was on the disk before, or it is in the list
            cases hbefore : fs.onDisk s₁.disk (servicePath dep) with
            | true =>
                exact .inl (hkeeps.onDisk _ (hwritten.keeps _ hbefore))
            | false =>
                have hlisted : dep ∈ missing := by
                  rw [hwritten.missing]
                  exact List.mem_filter.mpr ⟨hdep, by simp [hbefore]⟩
                exact (hmissing dep hlisted).imp_right (by simp +contextual)
          · obtain ⟨n, defn', hpath, hparse, hneeds⟩ := hcov path content hmem
            exact ⟨n, defn', hpath, hparse, fun dep hdep =>
              (hneeds dep hdep).imp_right (by simp +contextual)⟩

/-- Whatever the catalogue, the disk and the answers: with finitely many
definitions published, installing a service comes to an end, and when it
returns every dependency of what was written has a file or was warned about. -/
theorem get_resolves_dependencies
    (hfinite : {name | ∃ tomlStr,
      fetchServiceToml get distro name = .ok tomlStr}.Finite)
    (fs : FileSystem locate) (name : String) (start : Session fs) :
    ∃ depth ending final, ending ≠ .running ∧
      (∀ fuel, depth ≤ fuel →
        fetchAndInstall get fromStr distro fuel name start =
          (ending, final)) ∧
      (ending = .returned → ∃ during, final.log = start.log ++ during ∧
        Covered fromStr (fs.onDisk final.disk) during) := by
  let offered := hfinite.toFinset
  have hoffered : ∀ name tomlStr,
      fetchServiceToml get distro name = .ok tomlStr → name ∈ offered :=
    fun name tomlStr hfetch => hfinite.mem_toFinset.mpr ⟨tomlStr, hfetch⟩
  let depth := rank offered name start + 1
  have hend : (fetchAndInstall get fromStr distro depth name start).1 ≠
      .running :=
    fetchAndInstall_ne_running hoffered (Nat.succ_pos _)
      (fun _ => Nat.lt_succ_self _)
  refine ⟨depth, _, _, hend, fun fuel hle => fetchAndInstall_stable_le hend hle,
    fun hreturned => ?_⟩
  exact (covered_of_returned (Prod.ext hreturned rfl)).2

/-! ## A cycle -/

/-- A server with finitely many pages publishes finitely many services. -/
theorem finite_fetchable
    (h : {address | ∃ text, get address = .body text}.Finite)
    (distro : String) :
    {name | ∃ tomlStr,
      fetchServiceToml get distro name = .ok tomlStr}.Finite := by
  have hinj : ∀ dir : String, Function.Injective
      (fun name : String => servicesUrl ++ dir ++ name ++ ".toml") := by
    intro dir name name' heq
    exact (String.append_right_inj _).mp ((String.append_left_inj _).mp heq)
  apply (((h.preimage (hinj (distro ++ "/")).injOn)).union
    (h.preimage (hinj "global/").injOn)).subset
  rintro name ⟨tomlStr, hfetch⟩
  unfold fetchServiceToml at hfetch
  simp only [Set.mem_union, Set.mem_preimage, Set.mem_ofPred_eq]
  rw [← String.append_assoc]
  split at hfetch
  · rename_i text hbody
    exact .inl ⟨text, hbody⟩
  · cases hfetch
  · cases hfetch
  · split at hfetch
    · rename_i text hbody
      exact .inr ⟨text, hbody⟩
    all_goals cases hfetch

/-- A server with finitely many pages has text at finitely many addresses. -/
theorem finite_servePages (pages : List (String × String)) :
    {address | ∃ text, servePages pages address = .body text}.Finite := by
  apply (pages.map Prod.fst).finite_toSet.subset
  rintro address ⟨text, hbody⟩
  unfold servePages at hbody
  split at hbody
  · rename_i text' hlookup
    obtain ⟨before, after, heq, -⟩ := List.lookup_eq_some_iff.mp hlookup
    simp [heq]
  · cases hbody

/-- What the file of a service with one dependency looks like. -/
def tomlOf (name need : String) : String :=
  "[service]\nname = \"" ++ name ++ "\"\nexec = \"/bin/" ++ name ++
    "\"\n\n[deps]\nafter = []\nneeds = [\"" ++ need ++ "\"]\n"

/-- The files of these services, read. -/
def readToml (services : List (String × String)) (text : String) :
    Except String ServiceDef :=
  match services.find? (fun (name, need) => text = tomlOf name need) with
  | some (name, need) => .ok (makeService name [] [need])
  | none => .error "expected a service"

/-- Two services that need each other. -/
def dbusServices : List (String × String) :=
  [("dbus", "elogind"), ("elogind", "dbus")]

def dbusPages : List (String × String) :=
  [(servicesUrl ++ "artix/dbus.toml", tomlOf "dbus" "elogind"),
    (servicesUrl ++ "global/elogind.toml", tomlOf "elogind" "dbus")]

/-- With `dbus` installed, and `yes` to every question. -/
def dbusStart : Session (FileSystem.ofFiles (id : String → String)) where
  disk := fun file => file = servicePath "dbus"
  input := Stream'.const "yes"
  log := []

/-- `dbus` and `elogind` need each other, and `dbus` is there already:
installing it comes to an end all the same. -/
theorem get_resolves_dependencies_dbus :
    ∃ depth ending final, ending ≠ .running ∧
      (∀ fuel, depth ≤ fuel →
        fetchAndInstall (servePages dbusPages) (readToml dbusServices) "artix"
          fuel "dbus" dbusStart = (ending, final)) ∧
      (ending = .returned → ∃ during, final.log = dbusStart.log ++ during ∧
        Covered (readToml dbusServices)
          ((FileSystem.ofFiles (id : String → String)).onDisk final.disk)
          during) :=
  get_resolves_dependencies
    (finite_fetchable (finite_servePages dbusPages) "artix")
    (FileSystem.ofFiles id) "dbus" dbusStart

example :
    (fetchAndInstall (servePages dbusPages) (readToml dbusServices) "artix" 2
      "dbus" dbusStart).1 = .returned := by decide

end FlintInit.Get

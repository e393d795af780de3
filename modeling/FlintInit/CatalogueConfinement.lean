import FlintInit.DependencyGet
import FlintInit.RuntimePaths

/-!
# Which files `flint-ctl get` writes

`cmd_get` looks the requested name up in the catalog and checks its distros.
`fetch_and_install` then calls itself with the names it finds in the `needs`
lists it downloads, and looks none of them up.  `PullsIn` describes, from the
published definitions alone, which services can be reached so;
`catalogue_only_iff` says that the files are catalogue files whatever the user
answers exactly when those services are.
-/

namespace FlintInit.Get

open Collections

variable {File : Type} {locate : String → File} {get : String → Response}
  {fromStr : String → Except String ServiceDef} {distro : String}
  {present : File → Bool}

/-- `path` names the file of a service of the catalog for this distro, directly
in the services directory. -/
def CatalogueFile (locate : String → File) (cat : Catalog) (distro : String)
    (path : String) : Prop :=
  ∃ n, Offers cat distro n ∧ '/' ∉ n.toList ∧
    locate path = locate (servicePath n)

/-- The definition published for `n`. -/
def Publishes (get : String → Response)
    (fromStr : String → Except String ServiceDef) (distro n : String)
    (defn : ServiceDef) : Prop :=
  ∃ tomlStr, fetchServiceToml get distro n = .ok tomlStr ∧
    fromStr tomlStr = .ok defn

/-- `m` is `n`, or is needed along a chain of published definitions that
starts with `n`.  The chain goes on from a service to a dependency that has no
file among those `present` at the start and none of an `earlier` service of
the chain; the service itself still counts as missing when its own list is
made. -/
inductive PullsIn (locate : String → File) (get : String → Response)
    (fromStr : String → Except String ServiceDef) (distro : String)
    (present : File → Bool) : List String → String → String → Prop where
  | here (earlier : List String) (n : String) :
      PullsIn locate get fromStr distro present earlier n n
  | needs {earlier : List String} {n dep m : String} {defn : ServiceDef}
      (hpublished : Publishes get fromStr distro n defn)
      (hneeds : dep ∈ defn.needs)
      (habsent : present (locate (servicePath dep)) = false)
      (hnew : ∀ e ∈ earlier,
        locate (servicePath dep) ≠ locate (servicePath e))
      (h : PullsIn locate get fromStr distro present (n :: earlier) dep m) :
      PullsIn locate get fromStr distro present earlier n m

/-! ## What is written was pulled in -/

section Writes

variable {fs : FileSystem locate} {s s' s'' : Session fs} {P Q : String → Prop}

/-- All that is written between two states are files of services in `P`. -/
def WritesOnly (P : String → Prop) (s s' : Session fs) : Prop :=
  ∀ path content, .wrote path content ∈ s'.log →
    .wrote path content ∈ s.log ∨ ∃ m, P m ∧ path = servicePath m

/-- Where nothing is done nothing is written. -/
theorem WritesOnly.refl (s : Session fs) : WritesOnly P s s :=
  fun _ _ h => .inl h

/-- Two stretches that write only what `P` allows do so together. -/
theorem WritesOnly.trans (h : WritesOnly P s s') (h' : WritesOnly P s' s'') :
    WritesOnly P s s'' := by
  intro path content hmem
  rcases h' path content hmem with hbefore | hnew
  · exact h path content hbefore
  · exact .inr hnew

/-- What is written within narrow bounds is written within wide ones. -/
theorem WritesOnly.mono (h : WritesOnly P s s') (hPQ : ∀ m, P m → Q m) :
    WritesOnly Q s s' := by
  intro path content hmem
  rcases h path content hmem with hbefore | ⟨m, hm, hpath⟩
  · exact .inl hbefore
  · exact .inr ⟨m, hPQ m hm, hpath⟩

/-- It is enough to look at the events that have been added. -/
theorem WritesOnly.of_log {events : List Event}
    (hlog : s'.log = s.log ++ events)
    (hevents : ∀ path content, .wrote path content ∈ events →
      ∃ m, P m ∧ path = servicePath m) : WritesOnly P s s' := by
  intro path content hmem
  rw [hlog] at hmem
  exact (List.mem_append.mp hmem).imp_right (hevents path content)

/-- A service whose file is written is pulled in and published. -/
def Installable (locate : String → File) (get : String → Response)
    (fromStr : String → Except String ServiceDef) (distro : String)
    (present : File → Bool) (earlier : List String) (n m : String) : Prop :=
  PullsIn locate get fromStr distro present earlier n m ∧
    ∃ defn, Publishes get fromStr distro m defn

/-- The files present at the start and those of the services `earlier` on the
chain are on the disk. -/
structure ChainOnDisk (present : File → Bool) (earlier : List String)
    (s : Session fs) : Prop where
  present : ∀ path, present (locate path) = true →
    fs.onDisk s.disk path = true
  earlier : ∀ e ∈ earlier, ∀ path, locate path = locate (servicePath e) →
    fs.onDisk s.disk path = true

namespace ChainOnDisk

variable {earlier : List String} {n tomlStr : String} {missing : List String}
  {defn : ServiceDef}

/-- Files that have been written are not removed again, so the chain stays on
disk. -/
theorem mono (h : ChainOnDisk present earlier s) (hext : Extends s s') :
    ChainOnDisk present earlier s' where
  present path hpath := hext.onDisk path (h.present path hpath)
  earlier e he path hpath := hext.onDisk path (h.earlier e he path hpath)

/-- A service that is written joins the chain. -/
theorem cons (h : ChainOnDisk present earlier s)
    (hwritten : Written get fromStr distro n s missing s' tomlStr defn) :
    ChainOnDisk present (n :: earlier) s' where
  present := (h.mono hwritten.extends).present
  earlier := by
    intro e he path hpath
    rcases List.mem_cons.mp he with rfl | he
    · exact hwritten.installed path hpath
    · exact (h.mono hwritten.extends).earlier e he path hpath

/-- The chain can go on to a missing dependency. -/
theorem pullsIn_of_missing (h : ChainOnDisk present earlier s)
    (hwritten : Written get fromStr distro n s missing s' tomlStr defn)
    {dep m : String} (hdep : dep ∈ missing)
    (hpulls : PullsIn locate get fromStr distro present (n :: earlier) dep m) :
    PullsIn locate get fromStr distro present earlier n m := by
  rw [hwritten.missing] at hdep
  obtain ⟨hneeds, hfresh⟩ := List.mem_filter.mp hdep
  rw [Bool.not_eq_true'] at hfresh
  refine .needs ⟨tomlStr, hwritten.fetched, hwritten.parsed⟩ hneeds ?_ ?_ hpulls
  · rw [← Bool.not_eq_true]
    intro hthere
    rw [h.present _ hthere] at hfresh
    cases hfresh
  · intro e he hsame
    rw [h.earlier e he _ hsame] at hfresh
    cases hfresh

end ChainOnDisk

/-- What a call writes was pulled in, given that the files of the services
before it on the chain are there. -/
theorem fetchAndInstall_writesOnly {depth : Nat} {earlier : List String}
    {n : String} (hchain : ChainOnDisk present earlier s) :
    WritesOnly (Installable locate get fromStr distro present earlier n) s
      (fetchAndInstall get fromStr distro depth n s).2 := by
  induction depth generalizing n s earlier with
  | zero => exact .refl s
  | succ depth ih =>
      let R := Installable locate get fromStr distro present earlier n
      obtain ⟨s₁, hmay, heq⟩ | ⟨s₁, e, hmay, heq⟩ |
        ⟨s₁, missing, s₂, tomlStr, defn, hmay, hwritten, heq⟩ :=
        fetchAndInstall_cases get fromStr distro depth n s
      all_goals
        rw [heq]
        obtain ⟨-, asked, hasked, hquiet⟩ := mayWrite_eq hmay
        have hfirst : WritesOnly R s s₁ := .of_log hasked fun path content hmem =>
          absurd hmem (hquiet path content)
      · exact hfirst
      · exact hfirst.trans (.of_log rfl (by simp))
      · have hasking : ChainOnDisk present earlier s₁ :=
          hchain.mono (extends_mayWrite hmay)
        have hwrite : WritesOnly R s₁ s₂ := by
          refine .of_log hwritten.log fun path content hmem => ?_
          simp only [List.mem_cons, Event.wrote.injEq, reduceCtorEq,
            List.not_mem_nil, or_false] at hmem
          exact ⟨n, ⟨.here earlier n, defn, tomlStr, hwritten.fetched,
            hwritten.parsed⟩, hmem.1⟩
        have hcall : ∀ dep ∈ missing, ∀ s', Extends s₂ s' → WritesOnly R s'
            (fetchAndInstall get fromStr distro depth dep s').2 := by
          intro dep hdep s' hext
          have hdeeper := ih (n := dep) ((hasking.cons hwritten).mono hext)
          exact hdeeper.mono fun m hm =>
            ⟨hasking.pullsIn_of_missing hwritten hdep hm.1, hm.2⟩
        let final := (installDeps (fetchAndInstall get fromStr distro depth) n
          missing [] s₂).2
        have hloop : WritesOnly R s₂ final ∧ Extends s₂ final :=
          installDeps_post (fun _ s' => WritesOnly R s₂ s' ∧ Extends s₂ s')
            (fun s' _ h => ⟨h.1.trans (.of_log rfl (by simp)),
              h.2.trans (.record s' _)⟩)
            (fun s' _ h => ⟨h.1.trans (.of_log rfl (by simp)),
              h.2.trans (.prompt s' _)⟩)
            (fun dep hdep s' h => ⟨h.1.trans (hcall dep hdep s' h.2),
              h.2.trans (extends_fetchAndInstall depth dep s')⟩)
            ⟨.refl s₂, .refl s₂⟩
        exact (hfirst.trans hwrite).trans hloop.1

end Writes

/-! ## What is pulled in can be written -/

section Answers

variable [DecidableEq File]

/-- With the right answer, if one is asked for, a service may be written. -/
theorem exists_mayWrite (n : String) (disk : File → Bool)
    (rest : Stream' String) :
    ∃ input, ∀ log, ∃ log', mayWrite n
      (⟨disk, input, log⟩ : Session (FileSystem.ofFiles locate)) =
        (true, ⟨disk, rest, log'⟩) := by
  cases hthere : disk (locate (servicePath n)) with
  | true =>
      refine ⟨Stream'.cons "y" rest, fun log => ?_⟩
      simp only [mayWrite, hthere, if_true, Session.prompt_cons, isYes_y]
      exact ⟨_, rfl⟩
  | false =>
      refine ⟨rest, fun log => ⟨log, ?_⟩⟩
      simp only [mayWrite, hthere, Bool.false_eq_true, if_false]

variable (locate) in
/-- The files after `n` is installed. -/
def withService (n : String) (disk : File → Bool) : File → Bool :=
  fun file => file = locate (servicePath n) || disk file

/-- On a machine where each service has its place, writing a service changes
that place only, and what is missing is decided by what lay there before. -/
theorem writeService_ofFiles {n tomlStr : String} {defn : ServiceDef}
    (hfetch : fetchServiceToml get distro n = .ok tomlStr)
    (hparse : fromStr tomlStr = .ok defn)
    (s : Session (FileSystem.ofFiles locate)) :
    writeService get fromStr distro n s =
      .ok (defn.needs.filter (fun dep => !s.disk (locate (servicePath dep))),
        { s with
          disk := withService locate n s.disk
          log := s.log ++ [.wrote (servicePath n) tomlStr,
            .stdout ("installed: " ++ servicePath n)] }) := by
  have hmissing : missingDeps fromStr
      ((FileSystem.ofFiles locate).onDisk s.disk) tomlStr servicesDir =
        .ok (defn.needs.filter
          (fun dep => !s.disk (locate (servicePath dep)))) :=
    missingDeps_eq_ok.mpr ⟨defn, hparse, rfl⟩
  simp only [writeService, hfetch, hmissing, Session.record,
    List.append_assoc, List.cons_append, List.nil_append]
  rfl

/-- With the right answer, if one is asked for, a published service is written
and the loop over its missing dependencies comes next. -/
theorem exists_fetchAndInstall {n : String} {defn : ServiceDef}
    (hpublished : Publishes get fromStr distro n defn) (disk : File → Bool)
    (rest : Stream' String) :
    ∃ input tomlStr, ∀ depth log, ∃ log',
      .wrote (servicePath n) tomlStr ∈ log' ∧
      fetchAndInstall get fromStr distro (depth + 1) n
          (⟨disk, input, log⟩ : Session (FileSystem.ofFiles locate)) =
        installDeps (fetchAndInstall get fromStr distro depth) n
          (defn.needs.filter (fun dep => !disk (locate (servicePath dep)))) []
          ⟨withService locate n disk, rest, log'⟩ := by
  obtain ⟨tomlStr, hfetch, hparse⟩ := hpublished
  obtain ⟨input, hmay⟩ := exists_mayWrite n disk rest
  refine ⟨input, tomlStr, fun depth log => ?_⟩
  obtain ⟨log', hmay⟩ := hmay log
  refine ⟨log' ++ [.wrote (servicePath n) tomlStr,
    .stdout ("installed: " ++ servicePath n)], ?_, ?_⟩
  · simp
  · rw [fetchAndInstall, hmay]
    dsimp only
    rw [writeService_ofFiles hfetch hparse]

variable (locate) in
/-- With the right answers the loop comes to the call for any one of its
dependencies, with the disk as it was. -/
theorem exists_installDeps {dep : String} {missing : List String}
    (hdep : dep ∈ missing) (disk : File → Bool) (rest : Stream' String) :
    ∃ input, ∀ (install : String → Session (FileSystem.ofFiles locate) →
        Ending × Session (FileSystem.ofFiles locate)) (n : String),
      (∀ dep s, Extends s (install dep s).2) → ∀ skipped log, ∃ log',
        Extends (install dep ⟨disk, rest, log'⟩).2
          (installDeps install n missing skipped ⟨disk, input, log⟩).2 := by
  induction missing with
  | nil => cases hdep
  | cons first others ih =>
      rcases List.mem_cons.mp hdep with rfl | hlater
      · refine ⟨Stream'.cons "y" rest, fun install n hext skipped log =>
          ⟨log ++ [.stdout (requiresQuestion n dep)], ?_⟩⟩
        rw [installDeps, Session.prompt_cons, isYes_y]
        dsimp only
        split
        all_goals rename_i s' hcall; rw [hcall]
        · exact extends_installDeps n hext others skipped s'
        · exact .refl s'
        · exact .refl s'
      · obtain ⟨input, hinput⟩ := ih hlater
        refine ⟨Stream'.cons "" input, fun install n hext skipped log => ?_⟩
        rw [installDeps, Session.prompt_cons, isYes_empty]
        exact hinput install n hext (skipped ++ [first])
          (log ++ [.stdout (requiresQuestion n first)])

/-- A service that is pulled in and published is written, when no more is on
the disk than what was present and what came before it on the chain. -/
theorem exists_write_of_pullsIn {earlier : List String} {n m : String}
    {defn : ServiceDef}
    (h : PullsIn locate get fromStr distro present earlier n m)
    (hpublished : Publishes get fromStr distro m defn) {disk : File → Bool}
    (hdisk : ∀ file, disk file = true →
      present file = true ∨ ∃ e ∈ earlier, file = locate (servicePath e)) :
    ∃ depth input content, ∀ log,
      .wrote (servicePath m) content ∈
        (fetchAndInstall get fromStr distro depth n
          (⟨disk, input, log⟩ : Session (FileSystem.ofFiles locate))).2.log := by
  induction h generalizing disk with
  | here earlier n =>
      obtain ⟨input, tomlStr, hcall⟩ :=
        exists_fetchAndInstall hpublished disk (Stream'.const "")
      refine ⟨1, input, tomlStr, fun log => ?_⟩
      obtain ⟨log', hwrote, heq⟩ := hcall 0 log
      rw [heq]
      exact (extends_installDeps n (extends_fetchAndInstall 0) _ _ _).log.subset
        hwrote
  | @needs earlier n dep m defn' hpub hneeds habsent hnew _ ih =>
      -- the dependency was not on the disk when `n` was written
      have hfresh : disk (locate (servicePath dep)) = false := by
        rw [← Bool.not_eq_true]
        intro hthere
        rcases hdisk _ hthere with hpresent | ⟨e, he, hsame⟩
        · rw [hpresent] at habsent
          cases habsent
        · exact hnew e he hsame
      have hmissing : dep ∈ defn'.needs.filter
          (fun dep => !disk (locate (servicePath dep))) :=
        List.mem_filter.mpr ⟨hneeds, by simp [hfresh]⟩
      have hdisk' : ∀ file, withService locate n disk file = true →
          present file = true ∨
            ∃ e ∈ n :: earlier, file = locate (servicePath e) := by
        intro file hthere
        rcases (Bool.or_eq_true _ _).mp hthere with hsame | hthere
        · exact .inr ⟨n, List.mem_cons_self, of_decide_eq_true hsame⟩
        · refine (hdisk file hthere).imp_right ?_
          rintro ⟨e, he, hsame⟩
          exact ⟨e, List.mem_cons_of_mem n he, hsame⟩
      obtain ⟨depth, rest, content, hrun⟩ := ih hpublished hdisk'
      obtain ⟨middle, hloop⟩ :=
        exists_installDeps locate hmissing (withService locate n disk) rest
      obtain ⟨input, tomlStr, hcall⟩ := exists_fetchAndInstall hpub disk middle
      refine ⟨depth + 1, input, content, fun log => ?_⟩
      obtain ⟨log', -, heq⟩ := hcall depth log
      obtain ⟨log'', hext⟩ := hloop (fetchAndInstall get fromStr distro depth) n
        (extends_fetchAndInstall depth) [] log'
      rw [heq]
      exact hext.log.subset (hrun log'')

end Answers

/-! ## The catalogue -/

/-- Whatever the user answers, `flint-ctl get` writes files of the catalog for
this distro only, when `present` is on the disk at the start. -/
def CatalogueOnly (locate : String → File) (get : String → Response)
    (fromStr : String → Except String ServiceDef) (osRelease : Option String)
    (cat : Catalog) (name : String) (present : File → Bool) : Prop :=
  ∀ (fs : FileSystem locate) (start : Session fs) (depth : Nat),
    start.log = [] →
    (∀ path, fs.onDisk start.disk path = present (locate path)) →
    ∀ path content, .wrote path content ∈
        (cmdGet get fromStr osRelease (.ok cat) depth name start).2.log →
      CatalogueFile locate cat (detectDistro osRelease).1 path

/-- The files are those of the catalog exactly when every published service
that the requested one pulls in is one of the catalog. -/
theorem catalogue_only_iff [DecidableEq File] (locate : String → File)
    (get : String → Response) (fromStr : String → Except String ServiceDef)
    (osRelease : Option String) (cat : Catalog) (name : String)
    (present : File → Bool) :
    CatalogueOnly locate get fromStr osRelease cat name present ↔
      (Offers cat (detectDistro osRelease).1 name →
        ∀ m defn,
          PullsIn locate get fromStr (detectDistro osRelease).1 present [] name
            m →
          Publishes get fromStr (detectDistro osRelease).1 m defn →
          CatalogueFile locate cat (detectDistro osRelease).1
            (servicePath m)) := by
  constructor
  · intro hall hoffers m defn hpulls hpublished
    obtain ⟨depth, input, content, hrun⟩ :=
      exists_write_of_pullsIn hpulls hpublished (fun file hthere => .inl hthere)
    let start : Session (FileSystem.ofFiles locate) := ⟨present, input, []⟩
    apply hall (FileSystem.ofFiles locate) start depth rfl (fun _ => rfl)
      (servicePath m) content
    rcases cmdGet_cases get fromStr osRelease cat depth name start with
      ⟨-, heq⟩ | ⟨hnone, -⟩
    · rw [heq, Session.warn_eq]
      exact hrun _
    · exact absurd hoffers hnone
  · intro hpulled fs start depth hempty hpresent path content hmem
    have hwarned := start.warn_eq (detectDistro osRelease).2
    rcases cmdGet_cases get fromStr osRelease cat depth name start with
      ⟨hoffers, heq⟩ | ⟨-, e, heq⟩
    all_goals
      rw [heq] at hmem
      generalize start.warn (detectDistro osRelease).2 = warned at hwarned hmem
    · have honly : WritesOnly (Installable locate get fromStr
          (detectDistro osRelease).1 present [] name) warned
          (fetchAndInstall get fromStr (detectDistro osRelease).1 depth name
            warned).2 := by
        apply fetchAndInstall_writesOnly
        constructor
        · intro path hthere
          rw [hwarned, hpresent]
          exact hthere
        · intro e he
          cases he
      rcases honly path content hmem with
        hbefore | ⟨m, ⟨hpulls, defn, hpublished⟩, rfl⟩
      · simp [hwarned, hempty] at hbefore
      · exact hpulled hoffers m defn hpulls hpublished
    · simp [Session.exit, Session.record, hwarned, hempty] at hmem

/-! ## A dependency for another distro -/

/-- `bluez` is for every distro, `udev-trigger` for Arch. -/
def bluezCatalog : Catalog :=
  AList.insert "udev-trigger" ⟨"Trigger udev", some ["arch"]⟩
    (AList.insert "bluez" ⟨"Bluetooth protocol stack", none⟩ ∅)

def bluezServices : List (String × String) :=
  [("bluez", "udev-trigger"), ("udev-trigger", "udev")]

def bluezPages : List (String × String) :=
  [(servicesUrl ++ "void/bluez.toml", tomlOf "bluez" "udev-trigger"),
    (servicesUrl ++ "global/udev-trigger.toml", tomlOf "udev-trigger" "udev")]

/-- An empty disk, and `y` to every question. -/
def bluezStart : Session (FileSystem.ofFiles resolve) where
  disk := fun _ => false
  input := Stream'.const "y"
  log := []

/-- `bluez` needs a service that the catalogue has for another distribution
only, and gets it all the same. -/
theorem bluez_not_catalogue_only :
    ¬ CatalogueOnly resolve (servePages bluezPages) (readToml bluezServices)
      (some "ID=void\n") bluezCatalog "bluez" (fun _ => false) := by
  intro hall
  have hwrote : .wrote (servicePath "udev-trigger")
      (tomlOf "udev-trigger" "udev") ∈
        (cmdGet (servePages bluezPages) (readToml bluezServices)
          (some "ID=void\n") (.ok bluezCatalog) 2 "bluez" bluezStart).2.log := by
    decide +kernel
  have hdistro : (detectDistro (some "ID=void\n")).1 = "void" := by
    decide +kernel
  obtain ⟨n, ⟨entry, hlookup, havailable⟩, -, hfile⟩ :=
    hall _ bluezStart 2 rfl (fun _ => rfl) _ _ hwrote
  rw [hdistro] at havailable
  simp only [bluezCatalog, lookup_insert_eq, AList.lookup_empty] at hlookup
  split at hlookup
  · cases hlookup
    exact absurd havailable (by decide)
  · split at hlookup
    · rename_i hbluez
      subst hbluez
      exact absurd hfile (by decide +kernel)
    · cases hlookup

end FlintInit.Get

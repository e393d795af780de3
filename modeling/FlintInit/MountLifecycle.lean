import FlintInit.MountNamespace
import FlintInit.Pid1

/-!
# Mounts from boot to power-off

`setup` mounts the kernel's file systems and then the entries of fstab;
`supervise_forever` detaches what is not the kernel's before it asks for the
end.  `boot_mounts_detached` follows one namespace through both: the entries
mounted are the ones detached.  `stops_detached` says that no call of `reboot`
is made with one of them attached, and `any_history_detached` what is left
when others have mounted and unmounted in between.
-/

namespace FlintInit

open MountTree Splitting

/-! ## Names on a path -/

/-- What a path resolves to are names, of characters of the path. -/
theorem of_mem_resolve {path name : String} (h : name ∈ resolve path) :
    PlainName name ∧ ∀ c ∈ name.toList, c ∈ path.toList := by
  obtain ⟨segment, hsegment, rfl⟩ := List.mem_map.mp h
  obtain ⟨hmem, hhere, hup⟩ := Segments.mem_resolve hsegment
  have hchars : ∀ c ∈ segment, c ∈ path.toList ∧ (c == '/') = false :=
    fun c hc => (mem_splitOnP path.toList).mp ⟨segment, hmem, hc⟩
  simp only [staysHere, goesUp, decide_eq_false_iff_not, not_or] at hhere hup
  have htext : ∀ s : String, String.ofList segment = s →
      segment = s.toList := by
    rintro s rfl
    rw [String.toList_ofList]
  rw [String.toList_ofList]
  refine ⟨⟨fun h => hhere.1 (htext _ h), ?_, fun h => hhere.2 (htext _ h),
    fun h => hup (htext _ h)⟩, fun c hc => (hchars c hc).1⟩
  rw [String.toList_ofList]
  intro hslash
  exact absurd (hchars '/' hslash).2 (by decide)

/-- The path of a field without white space and backslash can be shown in a
line. -/
theorem plainPoint_resolve {path : String} (h : PlainField path) :
    PlainPoint (resolve path) := by
  intro name hname
  obtain ⟨hplain, hchars⟩ := of_mem_resolve hname
  exact ⟨hplain, fun c hc => h c (hchars c hc)⟩

/-- The device of an entry is a word if its spec is. A `UUID=` or `LABEL=` is
cut off and the rest joined to a directory whose path has no white space
either. -/
theorem resolveSpec_word {spec : String} (hne : spec ≠ "")
    (h : ∀ c ∈ spec.toList, isWhitespace c = false) :
    resolveSpec spec ≠ "" ∧
      ∀ c ∈ (resolveSpec spec).toList, isWhitespace c = false := by
  have hjoin : ∀ dir rest : String, dir ≠ "" →
      (∀ c ∈ dir.toList, isWhitespace c = false) →
      (∀ c ∈ rest.toList, isWhitespace c = false) →
      join dir rest ≠ "" ∧
        ∀ c ∈ (join dir rest).toList, isWhitespace c = false := by
    intro dir rest hdir hdirChars hrest
    unfold join
    split
    · rename_i habs
      refine ⟨?_, hrest⟩
      rintro rfl
      exact absurd habs (by decide)
    · split
      · refine ⟨fun hnil => hdir (String.append_eq_empty_iff.mp hnil).1, ?_⟩
        simp only [String.toList_append, List.mem_append]
        grind
      · constructor
        · intro hnil
          have hempty := (String.append_eq_empty_iff.mp hnil).1
          exact hdir (String.append_eq_empty_iff.mp hempty).1
        · have hslash : isWhitespace '/' = false := by decide
          simp only [String.toList_append, List.mem_append]
          grind
  have hstrip : ∀ pre rest, stripPrefix spec pre = some rest →
      ∀ c ∈ rest.toList, isWhitespace c = false := by
    intro pre rest hrest c hc
    unfold stripPrefix at hrest
    split at hrest
    · cases hrest
      rw [String.toList_ofList] at hc
      exact h c (List.mem_of_mem_drop hc)
    · cases hrest
  unfold resolveSpec
  split
  · rename_i uuid huuid
    exact hjoin _ uuid (by decide) (unbroken_iff_all.mp (by decide))
      (hstrip _ _ huuid)
  · split
    · rename_i label hlabel
      exact hjoin _ label (by decide) (unbroken_iff_all.mp (by decide))
        (hstrip _ _ hlabel)
    · exact ⟨hne, h⟩

/-! ## Any history -/

/-- A call that changes the mounts, made by anyone. -/
inductive MountOp where
  | mount (point : List String) (info : FsInfo)
  | umount (point : List String)

/-- What a call does to the mounts. -/
def Namespace.change (ns : Namespace) : MountOp → Namespace
  | .mount point info => { ns with mounts := attach ns.mounts point info }
  | .umount point =>
      match umount ns.mounts point with
      | some mounts => { ns with mounts := mounts }
      | none => ns

/-- What the kernel does on request keeps the mounts stacked. -/
theorem stacked_change {ns : Namespace} (h : Stacked ns.mounts)
    (op : MountOp) : Stacked (ns.change op).mounts := by
  cases op with
  | mount point info => exact h.attach point info
  | umount point =>
      unfold Namespace.change
      dsimp only
      split
      · rename_i mounts humount
        exact h.umount humount
      · exact h

/-- So does any history of such requests. -/
theorem stacked_changes (ops : List MountOp) {ns : Namespace}
    (h : Stacked ns.mounts) : Stacked (ops.foldl Namespace.change ns).mounts := by
  induction ops generalizing ns with
  | nil => exact h
  | cons op ops ih => exact ih (stacked_change h op)

section Detached

variable {ns : Namespace}

/-- Detachable mounts are gone. -/
theorem not_detachable_of_mem_detached (h : Stacked ns.mounts)
    {m : Mount String FsInfo} (hm : m ∈ ns.detached.mounts) :
    detachable m = false := by
  obtain ⟨hmem, hclear⟩ := List.mem_filter.mp hm
  rw [← Bool.not_eq_true]
  intro hdet
  exact clearOf_eq_true.mp hclear m (List.mem_filter.mpr ⟨hmem, hdet⟩)
    (h.mem_tree.mpr .here)

/-- What is gone was detachable, or mounted below what was. -/
theorem mem_detached_iff (h : Stacked ns.mounts) {m : Mount String FsInfo} :
    m ∈ ns.detached.mounts ↔ m ∈ ns.mounts ∧
      ∀ r ∈ ns.mounts, detachable r = true → ¬ Under ns.mounts r.id m.id := by
  rw [Namespace.detached, List.mem_filter, clearOf_eq_true]
  refine and_congr_right fun _ => ?_
  constructor
  · intro hclear r hr hdet hunder
    exact hclear r (List.mem_filter.mpr ⟨hr, hdet⟩) (h.mem_tree.mpr hunder)
  · intro hclear r hr hmem
    obtain ⟨hr, hdet⟩ := List.mem_filter.mp hr
    exact hclear r hr hdet (h.mem_tree.mp hmem)

/-- What `unmount_all` leaves is stacked, as trees are taken away whole. -/
theorem stacked_detached (h : Stacked ns.mounts) :
    Stacked ns.detached.mounts :=
  h.filter h.clearOf_closed

/-- What is left is shown in lines that can be read. -/
theorem readable_detached (h : ns.Readable) : ns.detached.Readable where
  root := h.root
  mounts := fun m hm => h.mounts m (List.mem_filter.mp hm).1

/-- No mount that is skipped has come to lie over one to be detached. -/
theorem uncovered_detached (h : Uncovered detachable ns.mounts) :
    Uncovered detachable ns.detached.mounts :=
  h.sublist List.filter_sublist

/-- Detaching again changes nothing. -/
theorem detached_detached (h : Stacked ns.mounts) :
    ns.detached.detached = ns.detached := by
  have hnone : ns.detached.mounts.filter detachable = [] := by
    rw [List.filter_eq_nil_iff]
    intro m hm hdet
    rw [not_detachable_of_mem_detached h hm] at hdet
    cases hdet
  have hall : ns.detached.mounts.filter (fun m =>
      clearOf ns.detached.mounts (ns.detached.mounts.filter detachable)
        m.id) = ns.detached.mounts := by
    rw [hnone]
    exact List.filter_eq_self.mpr fun m hm => rfl
  exact congrArg (fun mounts => { ns.detached with mounts := mounts }) hall

/-- Detachable mounts made last are all that goes. A mount made before is taken
along only by a detachable one that it lies under, and none that is made later
has it below. -/
theorem detached_append {root : FsInfo}
    {early new : List (Mount String FsInfo)} (h : Stacked (early ++ new))
    (hearly : ∀ m ∈ early, detachable m = false)
    (hnew : ∀ m ∈ new, detachable m = true) :
    Namespace.detached ⟨root, early ++ new⟩ = ⟨root, early⟩ := by
  have hkept : ∀ m ∈ early,
      m ∈ (Namespace.detached ⟨root, early ++ new⟩).mounts := by
    intro m hm
    refine (mem_detached_iff h).mpr ⟨List.mem_append_left _ hm, ?_⟩
    intro r hr hdet hunder
    rcases List.mem_append.mp hr with hr | hr
    · rw [hearly r hr] at hdet
      cases hdet
    · obtain ⟨between, rest, rfl⟩ := List.append_of_mem hr
      dsimp only at hunder
      rw [← List.append_assoc] at h hunder
      apply (h.not_under hunder).2
      exact List.mem_map_of_mem (List.mem_append_left _ hm)
  have hgone : ∀ m ∈ new,
      m ∉ (Namespace.detached ⟨root, early ++ new⟩).mounts := by
    intro m hm hleft
    have hdet := not_detachable_of_mem_detached h hleft
    rw [hnew m hm] at hdet
    cases hdet
  have hmounts : (Namespace.detached ⟨root, early ++ new⟩).mounts =
      early := by
    unfold Namespace.detached at hkept hgone ⊢
    dsimp only at hkept hgone ⊢
    rw [List.filter_append, List.filter_eq_self.mpr, List.filter_eq_nil_iff.mpr,
      List.append_nil]
    · intro m hm hclear
      exact hgone m hm (List.mem_filter.mpr
        ⟨List.mem_append_right _ hm, hclear⟩)
    · intro m hm
      exact (List.mem_filter.mp (hkept m hm)).2
  exact congrArg (Namespace.mk root) hmounts

end Detached

/-- **Detaching after any history.**  Whatever has been mounted and unmounted
since boot: if the lines of `/proc/mounts` can be read and no mount of a
skipped type lies over an earlier mount that is to go, every `umount2` call of
`unmount_all` succeeds, no file system of another type is left but the root,
and nothing is lost but what was mounted below one of these. -/
theorem any_history_detached (root : FsInfo) (ops : List MountOp)
    (succeeds : MountRequest → Bool) (shown : MountRequest → String)
    (hread : (ops.foldl Namespace.change ⟨root, []⟩).Readable)
    (huncovered : Uncovered detachable
      (ops.foldl Namespace.change ⟨root, []⟩).mounts) :
    let ns := ops.foldl Namespace.change ⟨root, []⟩
    ∃ ns', (unmountAll (fun _ => .ok ()) (fun _ => .ok ns.procMounts)).foldlM
        (Namespace.perform succeeds shown) ns = some ns' ∧
      ns'.root = root ∧ ns'.mounts.Sublist ns.mounts ∧
      (∀ m ∈ ns'.mounts, detachable m = false) ∧
      ∀ m ∈ ns.mounts, m ∉ ns'.mounts →
        ∃ r ∈ ns.mounts, detachable r = true ∧
          Under ns.mounts r.id m.id := by
  intro ns
  have hstacked : Stacked ns.mounts := stacked_changes ops .nil
  have hroot : ns.root = root := by
    have hkeep : ∀ (ops : List MountOp) (ns : Namespace),
        (ops.foldl Namespace.change ns).root = ns.root := by
      intro ops
      induction ops with
      | nil => intro ns; rfl
      | cons op ops ih =>
          intro ns
          rw [List.foldl_cons, ih]
          unfold Namespace.change
          split
          · rfl
          · split <;> rfl
    exact hkeep ops ⟨root, []⟩
  refine ⟨ns.detached, unmountAll_detaches hstacked hread huncovered, hroot,
    List.filter_sublist, fun m hm => not_detachable_of_mem_detached hstacked hm,
    ?_⟩
  intro m hm hgone
  rw [mem_detached_iff hstacked] at hgone
  simpa [hm] using hgone

/-- A stick mounted below a disk, and the kernel's own file systems. -/
def stickOps : List MountOp :=
  [.mount ["proc"] ⟨"proc", "proc", "rw"⟩,
    .mount ["srv"] ⟨"/dev/sdb1", "ext4", "rw"⟩,
    .mount ["srv", "stick"] ⟨"/dev/sdc1", "vfat", "rw"⟩,
    .umount ["mnt"],
    .mount ["srv", "stick", "run"] ⟨"tmpfs", "tmpfs", "rw"⟩]

def stickRoot : FsInfo := ⟨"/dev/sda1", "ext4", "rw"⟩

/-- What is mounted in the end. -/
def stickNamespace : Namespace :=
  stickOps.foldl Namespace.change ⟨stickRoot, []⟩

/-- The stick goes with the tmpfs on it, and so does the disk below it; `/proc`
stays. -/
theorem any_history_detached_stick :
    let ns := stickOps.foldl Namespace.change ⟨stickRoot, []⟩
    ∃ ns', (unmountAll (fun _ => .ok ()) (fun _ => .ok ns.procMounts)).foldlM
        (Namespace.perform (fun _ => true) (fun _ => "rw")) ns = some ns' ∧
      ns'.root = stickRoot ∧ ns'.mounts.Sublist ns.mounts ∧
      (∀ m ∈ ns'.mounts, detachable m = false) ∧
      ∀ m ∈ ns.mounts, m ∉ ns'.mounts →
        ∃ r ∈ ns.mounts, detachable r = true ∧
          Under ns.mounts r.id m.id :=
  any_history_detached stickRoot stickOps _ _ (by decide) (by decide)

example : stickNamespace.detached.mounts =
    [⟨1, 0, ["proc"], ⟨"proc", "proc", "rw"⟩⟩] := by
  decide

-- A tmpfs mounted over the disk takes the call meant for the disk.
example :
    let disk : Mount String FsInfo :=
      ⟨1, 0, ["srv"], ⟨"/dev/sdb1", "ext4", "rw"⟩⟩
    let ns : Namespace :=
      ⟨stickRoot, attach [disk] ["srv"] ⟨"tmpfs", "tmpfs", "rw"⟩⟩
    (unmountAll (fun _ => .ok ()) (fun _ => .ok ns.procMounts)).foldlM
        (Namespace.perform (fun _ => true) (fun _ => "rw")) ns =
      some ⟨stickRoot, [disk]⟩ := by
  decide

/-! ## Power-off -/

/-- What stopping the machine does to the mounts. -/
def Namespace.performHalt (succeeds : MountRequest → Bool)
    (shown : MountRequest → String) (ns : Namespace) :
    HaltEvent → Option Namespace
  | .mounts e => ns.perform succeeds shown e
  | .reboot _ => some ns

section PowerOff

variable {succeeds : MountRequest → Bool} {shown : MountRequest → String}

/-- Events that lead from one namespace to another, and have done so, with
everything synced, before any call of `reboot`. -/
structure StopsClean (succeeds : MountRequest → Bool)
    (shown : MountRequest → String) (ns ns' : Namespace)
    (events : List HaltEvent) : Prop where
  run : events.foldlM (Namespace.performHalt succeeds shown) ns = some ns'
  reboots : ∀ before mode after, events = before ++ .reboot mode :: after →
    before.foldlM (Namespace.performHalt succeeds shown) ns = some ns' ∧
      .mounts .sync ∈ before

/-- Two stretches that stop cleanly do so together; what has been detached and
synced stays so. -/
theorem StopsClean.append {ns ns' : Namespace} {first next : List HaltEvent}
    (h : StopsClean succeeds shown ns ns' first)
    (hnext : StopsClean succeeds shown ns' ns' next) :
    StopsClean succeeds shown ns ns' (first ++ next) where
  run := by
    rw [List.foldlM_append, h.run]
    exact hnext.run
  reboots := by
    intro before mode after hsplit
    rcases List.append_eq_append_iff.mp hsplit with
      ⟨rest, rfl, hrest⟩ | ⟨rest, hfirst, hrest⟩
    · obtain ⟨hrun, hsync⟩ := hnext.reboots rest mode after hrest
      rw [List.foldlM_append, h.run]
      exact ⟨hrun, List.mem_append_right _ hsync⟩
    · cases rest with
      | nil =>
          have hnone := (hnext.reboots [] mode after hrest.symm).2
          cases hnone
      | cons e rest =>
          rw [List.cons_append, List.cons.injEq] at hrest
          exact h.reboots before mode rest (hrest.1 ▸ hfirst)

/-- Events without a call of `reboot` that change no mounts. -/
theorem StopsClean.of_quiet {ns : Namespace} {events : List HaltEvent}
    (h : ∀ e ∈ events, ∃ text, e = .mounts (.eprintln text)) :
    StopsClean succeeds shown ns ns events where
  run := by
    induction events with
    | nil => rfl
    | cons e events ih =>
        obtain ⟨text, rfl⟩ := h e List.mem_cons_self
        rw [List.foldlM_cons]
        exact ih fun e' he' => h e' (List.mem_cons_of_mem _ he')
  reboots := by
    rintro before mode after rfl
    obtain ⟨text, heq⟩ := h (.reboot mode) (by simp)
    cases heq

/-- The call of `reboot` behind events that make none. It comes last, so
whatever splits the list at a `reboot` has all the other events in front. -/
theorem StopsClean.reboot {ns ns' : Namespace} {events : List HaltEvent}
    (hrun : events.foldlM (Namespace.performHalt succeeds shown) ns = some ns')
    (hsync : .mounts .sync ∈ events) (hnone : ∀ mode, .reboot mode ∉ events)
    (mode : RebootMode) :
    StopsClean succeeds shown ns ns' (events ++ [.reboot mode]) where
  run := by
    rw [List.foldlM_append, hrun]
    rfl
  reboots := by
    intro before m after hsplit
    have hbefore : before = events := by
      rcases List.append_eq_append_iff.mp hsplit with
        ⟨rest, hevents, hrest⟩ | ⟨rest, hevents, hrest⟩
      · cases rest with
        | nil => rw [hevents, List.append_nil]
        | cons e rest => simp at hrest
      · cases rest with
        | nil => rw [hevents, List.append_nil]
        | cons e rest =>
            rw [List.cons_append, List.cons.injEq] at hrest
            exact absurd (by simp [hevents, hrest.1]) (hnone m)
    rw [hbefore]
    exact ⟨hrun, hsync⟩

/-- One round of detaching, and the call of `reboot` behind it. The answers of
this round are the only ones that matter, and they are those of the kernel: the
table is the one it shows, and every detaching is granted. -/
theorem stopMachine_clean {sys : HaltAnswers} {k : Nat} {ns : Namespace}
    (hstacked : Stacked ns.mounts) (hread : ns.Readable)
    (huncovered : Uncovered detachable ns.mounts)
    (humount : ∀ path, sys.umount2 k path = .ok ())
    (hmounts : sys.readToString k "/proc/mounts" = .ok ns.procMounts)
    (text : String) (mode : RebootMode) :
    StopsClean succeeds shown ns ns.detached
      (stopMachine sys k text mode) := by
  have hevents : unmountAll (sys.umount2 k) (sys.readToString k) =
      unmountAll (fun _ => .ok ()) (fun _ => .ok ns.procMounts) := by
    rw [funext humount]
    unfold unmountAll
    rw [hmounts]
  have hrun : ((unmountAll (sys.umount2 k) (sys.readToString k)).map
      HaltEvent.mounts).foldlM (Namespace.performHalt succeeds shown) ns =
      some ns.detached := by
    rw [List.foldlM_map, hevents]
    exact unmountAll_detaches hstacked hread huncovered
  have hsync : HaltEvent.mounts .sync ∈
      (unmountAll (sys.umount2 k) (sys.readToString k)).map .mounts := by
    rw [hevents]
    apply List.mem_map_of_mem
    simp [unmountAll]
  rw [stopMachine, List.append_cons]
  apply StopsClean.reboot
  · rw [List.foldlM_append, hrun]
    rfl
  · exact List.mem_append_left _ hsync
  · simp

/-- **No power-off with a file system attached.**  However the machine is
stopped, and also when `reboot` comes back and is called again: before each
call every detachable mount is gone, with what was mounted below it, every
`umount2` has met its mount, and the disks have been synced. -/
theorem stops_detached (sys : HaltAnswers) (reboot : Bool)
    (onExit : Option String) {ns : Namespace} (hstacked : Stacked ns.mounts)
    (hread : ns.Readable) (huncovered : Uncovered detachable ns.mounts)
    (humount : ∀ k path, sys.umount2 k path = .ok ())
    (hfirst : sys.readToString 0 "/proc/mounts" = .ok ns.procMounts)
    (hsecond : sys.readToString 1 "/proc/mounts" =
      .ok ns.detached.procMounts) :
    ∀ before mode after,
      superviseForever sys reboot onExit = before ++ .reboot mode :: after →
      ∃ ns', before.foldlM (Namespace.performHalt succeeds shown) ns =
          some ns' ∧
        (∀ m ∈ ns'.mounts, detachable m = false) ∧
        .mounts .sync ∈ before := by
  have hclean : StopsClean succeeds shown ns ns.detached
      (superviseForever sys reboot onExit) := by
    have hone : ∀ text mode, StopsClean succeeds shown ns ns.detached
        (stopMachine sys 0 text mode) :=
      stopMachine_clean hstacked hread huncovered (humount 0) hfirst
    have htwo : ∀ text mode, StopsClean succeeds shown ns.detached ns.detached
        (stopMachine sys 1 text mode) := by
      intro text mode
      have h : StopsClean succeeds shown ns.detached ns.detached.detached
          (stopMachine sys 1 text mode) :=
        stopMachine_clean (stacked_detached hstacked) (readable_detached hread)
          (uncovered_detached huncovered) (humount 1) hsecond text mode
      rwa [detached_detached hstacked] at h
    have htail : ∀ mode, StopsClean succeeds shown ns.detached ns.detached
        (if sys.returns mode then
          [.mounts (.eprintln "[pid1] entering zombie-reap loop")]
        else []) := by
      intro mode
      apply StopsClean.of_quiet
      intro e he
      split at he
      · exact ⟨_, List.mem_singleton.mp he⟩
      · cases he
    unfold superviseForever
    cases reboot with
    | false => exact ((hone _ _).append (htail _))
    | true =>
        dsimp only
        split
        · exact hone _ _
        · exact ((hone _ _).append (htwo _ _)).append (htail _)
  intro before mode after hsplit
  obtain ⟨hrun, hsync⟩ := hclean.reboots before mode after hsplit
  exact ⟨ns.detached, hrun,
    fun m hm => not_detachable_of_mem_detached hstacked hm, hsync⟩

end PowerOff

/-- The stick is still there when the machine is told to reboot, and `reboot`
comes back. -/
def stickHalt : HaltAnswers where
  umount2 _ _ := .ok ()
  readToString k _ :=
    .ok (if k = 0 then stickNamespace.procMounts
      else stickNamespace.detached.procMounts)
  returns _ := true

/-- What is done up to the second call of `reboot`. -/
def stickHalted : List HaltEvent :=
  (superviseForever stickHalt true (some "halt")).dropLast.dropLast

/-- Both calls of `reboot` find the stick and the disk detached. -/
theorem stops_detached_stick :
    ∃ ns', stickHalted.foldlM
        (Namespace.performHalt (fun _ => true) (fun _ => "rw"))
        stickNamespace = some ns' ∧
      (∀ m ∈ ns'.mounts, detachable m = false) ∧
      .mounts .sync ∈ stickHalted :=
  stops_detached stickHalt true (some "halt") (stacked_changes stickOps .nil)
    (by decide) (by decide) (fun _ _ => rfl) rfl rfl stickHalted .haltSystem
    [.mounts (.eprintln "[pid1] entering zombie-reap loop")]
    (by decide +kernel)

/-! ## Boot -/

/-- Whether the system grants the `k`th mount. -/
def SetupAnswers.grants (sys : SetupAnswers) (k : Nat)
    (request : MountRequest) : Bool :=
  (sys.mount k request).isOk

/-- Of mounts asked for one after another, the first one as the `k`th, those
that are granted. -/
def SetupAnswers.granted (sys : SetupAnswers) :
    Nat → List MountRequest → List MountRequest
  | _, [] => []
  | k, request :: rest =>
      if sys.grants k request then request :: sys.granted (k + 1) rest
      else sys.granted (k + 1) rest

/-- The kernel's file systems, in the order in which they are mounted. -/
def earlyMounts : List EarlyMount :=
  [procMount, sysMount, runMount, cgroupMount, devMount]

/-- The early mounts that are granted. -/
def earlyMounted (sys : SetupAnswers) : List MountRequest :=
  sys.granted 0 (earlyMounts.map EarlyMount.request)

/-- The mounts that the entries of fstab ask for. -/
def fstabRequests (sys : SetupAnswers) : List MountRequest :=
  match sys.readToString "/etc/fstab" with
  | .error _ => []
  | .ok content => ((parseFstab content).filter shouldMount).map mountRequest

/-- The mounts of the entries of fstab that are granted. -/
def fstabMounted (sys : SetupAnswers) : List MountRequest :=
  sys.granted 5 (fstabRequests sys)

/-- Where a mount is in the namespace, and what it is of. -/
def requested (shown : MountRequest → String) (request : MountRequest) :
    List String × FsInfo :=
  (resolve request.target, ⟨request.source, request.fstype, shown request⟩)

/-- A namespace while the machine is set up, and how many mounts have been
asked for. -/
structure SettingUp where
  ns : Namespace
  asked : Nat

/-- What setting up does to the mounts. -/
def SettingUp.perform (sys : SetupAnswers) (shown : MountRequest → String)
    (s : SettingUp) : SetupEvent → Option SettingUp
  | .mounts (.mount request) =>
      (s.ns.perform (sys.grants s.asked) shown (.mount request)).map
        (⟨·, s.asked + 1⟩)
  | .mounts e =>
      (s.ns.perform (sys.grants s.asked) shown e).map (⟨·, s.asked⟩)
  | .makeDirs _ _ | .symlink _ _ | .redirectStderr => some s

/-- The first mount and the others. -/
theorem granted_cons (sys : SetupAnswers) (k : Nat) (request : MountRequest)
    (rest : List MountRequest) :
    sys.granted k (request :: rest) =
      sys.granted k [request] ++ sys.granted (k + 1) rest := by
  simp only [SetupAnswers.granted]
  split <;> rfl

/-- What is granted has been asked for. -/
theorem mem_of_mem_granted {sys : SetupAnswers} {request : MountRequest} :
    ∀ {requests : List MountRequest} {k : Nat},
      request ∈ sys.granted k requests → request ∈ requests := by
  intro requests
  induction requests with
  | nil => intro k h; exact h
  | cons first rest ih =>
      intro k h
      rw [SetupAnswers.granted] at h
      split at h
      · rcases List.mem_cons.mp h with rfl | h
        · exact List.mem_cons_self
        · exact List.mem_cons_of_mem _ (ih h)
      · exact List.mem_cons_of_mem _ (ih h)

/-- A namespace with more mounted last, in this order. -/
structure Mounted (pairs : List (List String × FsInfo)) (ns ns' : Namespace) :
    Prop where
  root : ns'.root = ns.root
  stacked : Stacked ns.mounts → Stacked ns'.mounts
  mounts : ∃ new, ns'.mounts = ns.mounts ++ new ∧
    new.map (fun m => (m.point, m.kind)) = pairs

/-- A namespace with nothing more mounted. -/
theorem Mounted.refl (ns : Namespace) : Mounted [] ns ns where
  root := rfl
  stacked := id
  mounts := ⟨[], (List.append_nil _).symm, rfl⟩

/-- Some is mounted, and then more. -/
theorem Mounted.trans {ns ns' ns'' : Namespace}
    {first next : List (List String × FsInfo)} (h : Mounted first ns ns')
    (h' : Mounted next ns' ns'') : Mounted (first ++ next) ns ns'' where
  root := h'.root.trans h.root
  stacked := fun hs => h'.stacked (h.stacked hs)
  mounts := by
    obtain ⟨new, hnew, hfirst⟩ := h.mounts
    obtain ⟨new', hnew', hnext⟩ := h'.mounts
    refine ⟨new ++ new', by rw [hnew', hnew, List.append_assoc], ?_⟩
    rw [List.map_append, hfirst, hnext]

section Boot

variable {sys : SetupAnswers} {shown : MountRequest → String}

/-- Events that lead from the `k`th mount to the `k'`th, and mount these. -/
def Makes (sys : SetupAnswers) (shown : MountRequest → String) (k k' : Nat)
    (pairs : List (List String × FsInfo)) (events : List SetupEvent) : Prop :=
  ∀ ns, ∃ ns', events.foldlM (SettingUp.perform sys shown) ⟨ns, k⟩ =
    some ⟨ns', k'⟩ ∧ Mounted pairs ns ns'

/-- Events that are about no mounts. -/
def Quiet (sys : SetupAnswers) (shown : MountRequest → String)
    (events : List SetupEvent) : Prop :=
  ∀ e ∈ events, ∀ s : SettingUp, s.perform sys shown e = some s

/-- Events that are about no mounts mount nothing. -/
theorem Quiet.makes {events : List SetupEvent}
    (h : Quiet sys shown events) (k : Nat) :
    Makes sys shown k k [] events := by
  intro ns
  refine ⟨ns, ?_, .refl ns⟩
  induction events with
  | nil => rfl
  | cons e events ih =>
      rw [List.foldlM_cons, h e List.mem_cons_self]
      exact ih fun e' he' => h e' (List.mem_cons_of_mem _ he')

/-- What is mounted by events and by the events behind them. -/
theorem Makes.append {k k' k'' : Nat}
    {pairs pairs' : List (List String × FsInfo)}
    {events events' : List SetupEvent} (h : Makes sys shown k k' pairs events)
    (h' : Makes sys shown k' k'' pairs' events') :
    Makes sys shown k k'' (pairs ++ pairs') (events ++ events') := by
  intro ns
  obtain ⟨mid, hrun, hmounted⟩ := h ns
  obtain ⟨ns', hrun', hmounted'⟩ := h' mid
  refine ⟨ns', ?_, hmounted.trans hmounted'⟩
  rw [List.foldlM_append, hrun]
  exact hrun'

/-- One mount is asked for, and made if that is granted. -/
theorem makes_mount (k : Nat) (request : MountRequest) :
    Makes sys shown k (k + 1) ((sys.granted k [request]).map (requested shown))
      [.mounts (.mount request)] := by
  intro ns
  rw [SetupAnswers.granted]
  by_cases hgrants : sys.grants k request = true
  · refine ⟨{ ns with
        mounts := attach ns.mounts (requested shown request).1
          (requested shown request).2 }, ?_, ?_⟩
    · simp [SettingUp.perform, Namespace.perform, hgrants, requested]
    · rw [if_pos hgrants]
      exact ⟨rfl, fun hs => hs.attach _ _, _, rfl, rfl⟩
  · refine ⟨ns, ?_, ?_⟩
    · simp [SettingUp.perform, Namespace.perform, hgrants]
    · rw [if_neg hgrants]
      exact .refl ns

/-- One mount with what is said and done around it. -/
theorem makes_around {before after : List SetupEvent}
    (hbefore : Quiet sys shown before) (hafter : Quiet sys shown after)
    (k : Nat) (request : MountRequest) :
    Makes sys shown k (k + 1) ((sys.granted k [request]).map (requested shown))
      (before ++ .mounts (.mount request) :: after) := by
  have hall := (hbefore.makes k).append
    ((makes_mount k request).append (hafter.makes (k + 1)))
  rw [List.nil_append, List.append_nil] at hall
  exact hall

/-- The loop over the entries of fstab, the first one being the `i`th. Each
entry asks for one mount under its own number, between a directory that may be
created and a line that may be printed. -/
theorem makes_entries (entries : List FstabEntry) (i : Nat) :
    Makes sys shown (5 + i) (5 + i + entries.length)
      ((sys.granted (5 + i) (entries.map mountRequest)).map (requested shown))
      (((entries.zipIdx i).flatMap fun (entry, k) =>
        mountEntry (sys.createDirAll (5 + k)) (fun request =>
          (sys.mount (5 + k) request).mapError MountError.text) entry).map
        .mounts) := by
  induction entries generalizing i with
  | nil => exact Quiet.makes (List.forall_mem_nil _) _
  | cons entry entries ih =>
      have hentry : Makes sys shown (5 + i) (5 + i + 1)
          ((sys.granted (5 + i) [mountRequest entry]).map (requested shown))
          ((mountEntry (sys.createDirAll (5 + i)) (fun request =>
            (sys.mount (5 + i) request).mapError MountError.text) entry).map
            .mounts) := by
        unfold mountEntry
        dsimp only
        rw [List.map_append]
        apply makes_around
        · intro e he s
          cases hcreate : sys.createDirAll (5 + i) entry.file with
          | error err =>
              simp only [hcreate, List.map_cons, List.map_nil, List.mem_cons,
                List.not_mem_nil, or_false] at he
              rcases he with rfl | rfl <;> rfl
          | ok u =>
              simp only [hcreate, List.map_cons, List.map_nil, List.mem_cons,
                List.not_mem_nil, or_false] at he
              rw [he]
              rfl
        · intro e he s
          rw [List.mem_singleton.mp he]
          rfl
      rw [List.zipIdx_cons, List.flatMap_cons, List.map_append, List.map_cons,
        granted_cons, List.map_append]
      have hrest := hentry.append (ih (i + 1))
      have hcount : 5 + (i + 1) + entries.length =
          5 + i + (entries.length + 1) := by
        omega
      rw [hcount] at hrest
      exact hrest

/-- The part of the setup, if it succeeds, leads from the `k`th mount to the
`k'`th and mounts these. -/
def SetupPart.Takes (sys : SetupAnswers) (shown : MountRequest → String)
    (k k' : Nat) (pairs : List (List String × FsInfo)) (part : SetupPart) :
    Prop :=
  part.2 = .ok () → Makes sys shown k k' pairs part.1

/-- One part after another. -/
theorem SetupPart.Takes.andThen {k k' k'' : Nat}
    {pairs pairs' : List (List String × FsInfo)} {first next : SetupPart}
    (h : first.Takes sys shown k k' pairs)
    (hnext : next.Takes sys shown k' k'' pairs') :
    (first.andThen next).Takes sys shown k k'' (pairs ++ pairs') := by
  intro hok
  unfold SetupPart.andThen at hok ⊢
  cases hfirst : first.2 with
  | error e =>
      rw [hfirst] at hok
      dsimp only at hok
      rw [hfirst] at hok
      cases hok
  | ok u =>
      rw [hfirst] at hok
      exact (h hfirst).append (hnext hok)

/-- An early mount. Where it does not end the boot it has asked for its mount,
whether that was granted, found busy or refused, and what is printed after it
mounts nothing. -/
theorem earlyMount_takes (k : Nat) (m : EarlyMount) :
    (earlyMount sys k m).Takes sys shown k (k + 1)
      ((sys.granted k [m.request]).map (requested shown)) := by
  intro hok
  -- whatever is answered, the mount is asked for and a line may be printed
  have hevents : ∃ after, Quiet sys shown after ∧ (earlyMount sys k m).1 =
      [.mounts (.createDirAll m.target)] ++
        .mounts (.mount m.request) :: after := by
    have hprinted : ∀ text : String,
        Quiet sys shown [.mounts (.eprintln text)] := by
      intro text e he s
      rw [List.mem_singleton.mp he]
      rfl
    unfold earlyMount at hok ⊢
    dsimp only at hok ⊢
    cases hcreate : sys.createDirAll k m.target with
    | error e => rw [hcreate] at hok; cases hok
    | ok u =>
        rw [hcreate] at hok
        dsimp only at hok ⊢
        cases hmount : sys.mount k m.request with
        | ok u => exact ⟨[], List.forall_mem_nil _, rfl⟩
        | error err =>
            rw [hmount] at hok
            cases err with
            | busy => exact ⟨_, hprinted m.busy, rfl⟩
            | other e =>
                dsimp only at hok ⊢
                cases hfailed : m.failed with
                | none => rw [hfailed] at hok; cases hok
                | some text => exact ⟨_, hprinted (text ++ e), rfl⟩
  obtain ⟨after, hafter, heq⟩ := hevents
  rw [heq]
  apply makes_around _ hafter
  intro e he s
  rw [List.mem_singleton.mp he]
  rfl

/-- What follows `/dev` mounts the entries of fstab that are granted. The links
in `/dev` before them and the line printed after them mount nothing. -/
theorem fstab_makes : ∃ k, Makes sys shown 5 k
    ((fstabMounted sys).map (requested shown))
    (devLinks sys ++ (fstabMounts sys).map .mounts ++
      [.mounts (.eprintln
        "[pid1] mounted /proc, /sys, /sys/fs/cgroup, /dev")]) := by
  have hlinks : Quiet sys shown (devLinks sys) := by
    unfold Quiet devLinks
    cases sys.kmsgOpens with
    | true => simp [SettingUp.perform]
    | false => simp [SettingUp.perform]
  have hprinted : Quiet sys shown [.mounts (.eprintln
      "[pid1] mounted /proc, /sys, /sys/fs/cgroup, /dev")] := by
    intro e he s
    rw [List.mem_singleton.mp he]
    rfl
  obtain ⟨k, hentries⟩ : ∃ k, Makes sys shown 5 k
      ((fstabMounted sys).map (requested shown))
      ((fstabMounts sys).map .mounts) := by
    unfold fstabMounts fstabMounted fstabRequests mountAll
    cases sys.readToString "/etc/fstab" with
    | error e =>
        refine ⟨5, Quiet.makes ?_ 5⟩
        intro e he s
        rw [List.mem_singleton.mp he]
        rfl
    | ok content => exact ⟨_, makes_entries _ 0⟩
  refine ⟨k, ?_⟩
  have hall := ((hlinks.makes 5).append hentries).append (hprinted.makes k)
  rw [List.nil_append, List.append_nil] at hall
  exact hall

/-- **What the setup mounts**: the early mounts that are granted, and then the
entries of fstab that are granted. -/
theorem setup_makes (hinit : sys.isInit = true)
    (hok : (setup sys).2 = .ok ()) :
    ∃ k, Makes sys shown 0 k ((earlyMounted sys).map (requested shown) ++
      (fstabMounted sys).map (requested shown)) (setup sys).1 := by
  obtain ⟨k, hfstab⟩ := @fstab_makes sys shown
  have htmp : SetupPart.Takes sys shown 3 3 []
      ((applyTmpfiles sys.readDir sys.readToString).map
        (fun dir => .makeDirs dir.1 dir.2), .ok ()) := by
    intro _
    apply Quiet.makes
    intro e he s
    obtain ⟨dir, -, rfl⟩ := List.mem_map.mp he
    rfl
  have hlast : SetupPart.Takes sys shown 5 k
      ((fstabMounted sys).map (requested shown))
      (devLinks sys ++ (fstabMounts sys).map .mounts ++
        [.mounts (.eprintln
          "[pid1] mounted /proc, /sys, /sys/fs/cgroup, /dev")], .ok ()) :=
    fun _ => hfstab
  have hall := (earlyMount_takes 0 procMount).andThen <|
    (earlyMount_takes 1 sysMount).andThen <|
    (earlyMount_takes 2 runMount).andThen <|
    htmp.andThen <|
    (earlyMount_takes 3 cgroupMount).andThen <|
    (earlyMount_takes 4 devMount).andThen hlast
  have hsetup : setup sys = _ := if_neg (by simp [hinit])
  rw [hsetup] at hok ⊢
  refine ⟨k, ?_⟩
  have hearly : earlyMounted sys = sys.granted 0 [procMount.request] ++
      (sys.granted 1 [sysMount.request] ++
        (sys.granted 2 [runMount.request] ++
          (sys.granted 3 [cgroupMount.request] ++
            sys.granted 4 [devMount.request]))) := by
    unfold earlyMounted earlyMounts
    simp only [List.map_cons, List.map_nil]
    rw [granted_cons sys 0 _ (_ :: _), granted_cons sys (0 + 1) _ (_ :: _),
      granted_cons sys (0 + 1 + 1) _ (_ :: _),
      granted_cons sys (0 + 1 + 1 + 1) _ (_ :: _)]
  rw [hearly]
  simpa only [List.map_append, List.append_assoc, List.nil_append] using
    hall hok

/-- Early mounts mount the kernel's file systems. -/
structure EarlyMount.Kernel (m : EarlyMount) : Prop where
  legible : Legible ⟨m.source, m.fstype, ""⟩
  skipped : m.fstype ∈ skipTypes
  target : PlainPoint (resolve m.target)

/-- All early mounts do. -/
theorem earlyMounts_kernel : ∀ m ∈ earlyMounts, m.Kernel := by
  have hlegible : ∀ m ∈ earlyMounts, Legible ⟨m.source, m.fstype, ""⟩ := by
    decide
  have hskipped : ∀ m ∈ earlyMounts, m.fstype ∈ skipTypes := by decide
  have htarget : ∀ m ∈ earlyMounts, PlainField m.target := by decide
  intro m hm
  exact ⟨hlegible m hm, hskipped m hm, plainPoint_resolve (htarget m hm)⟩

/-- An early mount that is granted leaves a line that can be read, and stays
when all is detached. -/
theorem kernel_earlyMounted {request : MountRequest}
    (h : request ∈ earlyMounted sys) :
    request.fstype ∈ skipTypes ∧ Legible (requested shown request).2 ∧
      PlainPoint (requested shown request).1 := by
  obtain ⟨m, hm, rfl⟩ := List.mem_map.mp (mem_of_mem_granted h)
  have hkernel := earlyMounts_kernel m hm
  exact ⟨hkernel.skipped, ⟨hkernel.legible.source, hkernel.legible.fstype⟩,
    hkernel.target⟩

/-- An entry that is mounted leaves a line that can be read. Its fields are
words of a line, so they are not empty and have no white space; that they have
no backslash is asked for here. -/
theorem legible_fstabMounted {request : MountRequest}
    (hrequest : request ∈ fstabMounted sys)
    (hfile : '\\' ∉ request.target.toList)
    (htype : '\\' ∉ request.fstype.toList) :
    request.fstype ∉ skipTypes ∧ Legible (requested shown request).2 ∧
      PlainPoint (requested shown request).1 := by
  have hasked := mem_of_mem_granted hrequest
  unfold fstabRequests at hasked
  cases hread : sys.readToString "/etc/fstab" with
  | error e => rw [hread] at hasked; cases hasked
  | ok content =>
      rw [hread] at hasked
      obtain ⟨entry, hentry, rfl⟩ := List.mem_map.mp hasked
      obtain ⟨hmem, hmount⟩ := List.mem_filter.mp hentry
      have hunbroken := unbroken_of_mem_parseFstab hmem
      obtain ⟨line, -, hline⟩ := mem_parseFstab.mp hmem
      obtain ⟨rest, hwords, -⟩ := entryOfWords_eq_some.mp hline
      have hne : ∀ field ∈ entry.fields, field ≠ "" := by
        intro field hfield
        have hword : field ∈ splitWhitespace line := by
          rw [hwords]
          exact List.mem_append_left rest hfield
        obtain ⟨chars, hchars, rfl⟩ := List.mem_map.mp hword
        intro hempty
        apply (of_mem_words hchars).1
        have hlist := congrArg String.toList hempty
        rwa [String.toList_ofList] at hlist
      have hplain : ∀ field ∈ entry.fields, '\\' ∉ field.toList →
          PlainField field := by
        intro field hfield hno c hc
        exact ⟨hunbroken field hfield c hc, fun heq => hno (heq ▸ hc)⟩
      have hspec := resolveSpec_word
        (hne entry.spec (by simp [FstabEntry.fields]))
        (hunbroken entry.spec (by simp [FstabEntry.fields]))
      have htypeField : entry.vfstype ∈ entry.fields := by
        simp [FstabEntry.fields]
      have hfileField : entry.file ∈ entry.fields := by
        simp [FstabEntry.fields]
      have hskip : ∀ t ∈ skipTypes, t ∈ virtualTypes := by decide
      exact ⟨fun h => (shouldMount_iff.mp hmount).2.2 (hskip _ h),
        ⟨hspec, hne _ htypeField, hplain _ htypeField htype⟩,
        plainPoint_resolve (hplain _ hfileField hfile)⟩

/-- What is mounted comes of one of the requests. -/
theorem exists_requested {new : List (Mount String FsInfo)}
    {requests : List MountRequest}
    (h : new.map (fun m => (m.point, m.kind)) =
      requests.map (requested shown)) {m : Mount String FsInfo}
    (hm : m ∈ new) :
    ∃ request ∈ requests, requested shown request = (m.point, m.kind) := by
  have hpair : (m.point, m.kind) ∈ requests.map (requested shown) := by
    rw [← h]
    exact List.mem_map_of_mem hm
  exact List.mem_map.mp hpair

/-- **From boot to power-off.**  Take a machine on which at most the kernel's
file systems are mounted, and let `setup` succeed, whatever else it is
answered.  Then the early mounts that were granted come last, in their order,
and behind them the entries of fstab that were granted, in the order of the
table; and `unmount_all` detaches exactly these entries, if none is mounted on
the root and none has a backslash in its mount point or type. -/
theorem boot_mounts_detached (hinit : sys.isInit = true)
    (hok : (setup sys).2 = .ok ()) {ns : Namespace}
    (hstacked : Stacked ns.mounts) (hread : ns.Readable)
    (hkernel : ∀ m ∈ ns.mounts, m.kind.fstype ∈ skipTypes)
    (hentries : ∀ request ∈ fstabMounted sys, resolve request.target ≠ [] ∧
      '\\' ∉ request.target.toList ∧ '\\' ∉ request.fstype.toList)
    (succeeds : MountRequest → Bool) :
    ∃ early new k,
      early.map (fun m => (m.point, m.kind)) =
        (earlyMounted sys).map (requested shown) ∧
      new.map (fun m => (m.point, m.kind)) =
        (fstabMounted sys).map (requested shown) ∧
      (setup sys).1.foldlM (SettingUp.perform sys shown) ⟨ns, 0⟩ =
        some ⟨⟨ns.root, ns.mounts ++ early ++ new⟩, k⟩ ∧
      (unmountAll (fun _ => .ok ()) (fun _ => .ok (Namespace.procMounts
          ⟨ns.root, ns.mounts ++ early ++ new⟩))).foldlM
          (Namespace.perform succeeds shown)
          ⟨ns.root, ns.mounts ++ early ++ new⟩ =
        some ⟨ns.root, ns.mounts ++ early⟩ := by
  obtain ⟨k, hmakes⟩ := @setup_makes sys shown hinit hok
  obtain ⟨⟨root, mounts⟩, hrun, hmounted⟩ := hmakes ns
  obtain ⟨all, hall, hpairs⟩ := hmounted.mounts
  obtain ⟨early, new, rfl, hearly, hnew⟩ := List.map_eq_append_iff.mp hpairs
  have hroot : root = ns.root := hmounted.root
  dsimp only at hall
  rw [← List.append_assoc] at hall
  subst hroot
  subst hall
  have hkept : ∀ m ∈ ns.mounts ++ early, m.kind.fstype ∈ skipTypes ∧
      Legible m.kind ∧ PlainPoint m.point := by
    intro m hm
    rcases List.mem_append.mp hm with hm | hm
    · exact ⟨hkernel m hm, hread.mounts m hm⟩
    · obtain ⟨request, hrequest, heq⟩ := exists_requested hearly hm
      have h := @kernel_earlyMounted sys shown request hrequest
      rw [heq] at h
      exact ⟨(congrArg (fun pair => pair.2.fstype) heq) ▸ h.1, h.2⟩
  have hgone : ∀ m ∈ new, Legible m.kind ∧ PlainPoint m.point ∧
      detachable m = true := by
    intro m hm
    obtain ⟨request, hrequest, heq⟩ := exists_requested hnew hm
    obtain ⟨htarget, hfile, htype⟩ := hentries request hrequest
    obtain ⟨hskip, hinfo, hpoint⟩ :=
      @legible_fstabMounted sys shown request hrequest hfile htype
    have hpath : resolve request.target = m.point := congrArg Prod.fst heq
    have hfstype : request.fstype = m.kind.fstype :=
      congrArg (fun pair => pair.2.fstype) heq
    rw [heq] at hinfo hpoint
    rw [hpath] at htarget
    rw [hfstype] at hskip
    exact ⟨hinfo, hpoint, decide_eq_true ⟨htarget, hskip⟩⟩
  have hearlyKept : ∀ m ∈ ns.mounts ++ early, detachable m = false := by
    intro m hm
    have hskip := (hkept m hm).1
    simp [detachable, hskip]
  have hstackedAll : Stacked (ns.mounts ++ early ++ new) :=
    hmounted.stacked hstacked
  have hreadAll : Namespace.Readable ⟨ns.root, ns.mounts ++ early ++ new⟩ := by
    refine ⟨hread.root, fun m hm => ?_⟩
    rcases List.mem_append.mp hm with hm | hm
    · exact (hkept m hm).2
    · exact ⟨(hgone m hm).1, (hgone m hm).2.1⟩
  have huncovered : Uncovered detachable (ns.mounts ++ early ++ new) := by
    refine List.pairwise_append.mpr ⟨?_, ?_, ?_⟩
    · apply List.pairwise_of_forall_mem_list
      intro m hm _ _ hdet
      rw [hearlyKept m hm] at hdet
      cases hdet
    · apply List.pairwise_of_forall_mem_list
      intro _ _ s hs _ hstays
      rw [(hgone s hs).2.2] at hstays
      cases hstays
    · intro m hm _ _ hdet
      rw [hearlyKept m hm] at hdet
      cases hdet
  have hunmount := @unmountAll_detaches succeeds shown _ hstackedAll hreadAll
    huncovered
  rw [detached_append hstackedAll hearlyKept fun m hm => (hgone m hm).2.2]
    at hunmount
  exact ⟨early, new, k, hearly, hnew, hrun, hunmount⟩

end Boot

/-- A machine with a disk of its own for `/home`, which is listed twice; the
stick is not there. -/
def homeAnswers : SetupAnswers where
  isInit := true
  createDirAll _ _ := .ok ()
  mount k request :=
    if request.target = "/stick" then .error (.other "ENOENT")
    else if k = 4 ∨ k = 6 then .error .busy
    else .ok ()
  readDir _ := .error ⟨true, "No such file or directory"⟩
  readToString _ := .ok ("/dev/sda1 / ext4 rw\n/dev/sdb1 /home ext4 rw\n" ++
    "/dev/sdb1 /home ext4 rw\n/dev/sdc1 /stick vfat rw\n")
  kmsgOpens := true

/-- The disk is mounted on `/home` once and detached again; the early mounts
that were granted stay. -/
theorem boot_mounts_detached_home :
    ∃ early new k,
      early.map (fun m => (m.point, m.kind)) =
        (earlyMounted homeAnswers).map (requested (fun _ => "rw")) ∧
      new.map (fun m => (m.point, m.kind)) =
        (fstabMounted homeAnswers).map (requested (fun _ => "rw")) ∧
      (setup homeAnswers).1.foldlM
          (SettingUp.perform homeAnswers (fun _ => "rw"))
          ⟨⟨stickRoot, []⟩, 0⟩ =
        some ⟨⟨stickRoot, [] ++ early ++ new⟩, k⟩ ∧
      (unmountAll (fun _ => .ok ()) (fun _ => .ok (Namespace.procMounts
          ⟨stickRoot, [] ++ early ++ new⟩))).foldlM
          (Namespace.perform (fun _ => true) (fun _ => "rw"))
          ⟨stickRoot, [] ++ early ++ new⟩ =
        some ⟨stickRoot, [] ++ early⟩ := by
  have hmounted : fstabMounted homeAnswers =
      [⟨"/dev/sdb1", "/home", "ext4", ∅, none⟩] := by decide
  have hentries : ∀ request ∈ fstabMounted homeAnswers,
      resolve request.target ≠ [] ∧ '\\' ∉ request.target.toList ∧
        '\\' ∉ request.fstype.toList := by
    rw [hmounted]
    decide
  have hnone : ∀ m ∈ (Namespace.mk stickRoot []).mounts,
      m.kind.fstype ∈ skipTypes := by
    intro m hm
    cases hm
  exact boot_mounts_detached (by decide) (by decide) .nil (by decide) hnone
    hentries (fun _ => true)

end FlintInit

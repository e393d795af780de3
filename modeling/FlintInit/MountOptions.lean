import FlintInit.Mounts
import FlintInit.Library.Toggles

/-!
# Mount options

mount(8) reads an option string from left to right: a generic option is for
mount itself and switches flags on or off, a later one overriding an earlier
opposite one, and the other options are for the file system.  Which options are
generic is a matter of its table.  The table is a parameter here, `Documented`
is what the manual says of the options that matter, and `linuxTable` is such a
table.

`parse_flags` knows eleven generic options, hands every other one to the file
system, and never takes a flag back.  `mount_options_followed_iff` says on which
strings the two agree, whatever else the table holds.
-/

namespace FlintInit

open Toggles

/-! ## The options of mount(8) -/

/-- A table of the generic options, with what each does to the flags; none for
an option of the file system. -/
abbrev OptionTable := String → Option (Toggle MsFlag)

/-- Generic options that are documented, with what they do. -/
def documentedOptions : List (String × Toggle MsFlag) :=
  [("ro", .switchOn {.rdonly}), ("rw", .switchOff {.rdonly}),
    ("noexec", .switchOn {.noexec}), ("exec", .switchOff {.noexec}),
    ("nosuid", .switchOn {.nosuid}), ("suid", .switchOff {.nosuid}),
    ("nodev", .switchOn {.nodev}), ("dev", .switchOff {.nodev}),
    ("sync", .switchOn {.synchronous}), ("async", .switchOff {.synchronous}),
    ("noatime", .switchOn {.noatime}), ("relatime", .switchOn {.relatime}),
    ("strictatime", .switchOn {.strictatime}),
    ("user", .switchOn {.noexec, .nosuid, .nodev}),
    -- read by mount and its callers only
    ("defaults", .idle), ("auto", .idle), ("noauto", .idle),
    ("nofail", .idle), ("_netdev", .idle)]

/-- The table does what the manual says of these options, and of those that
begin with `x-`. -/
structure Documented (table : OptionTable) : Prop where
  options : ∀ p ∈ documentedOptions, table p.1 = some p.2
  extensions : ∀ o, startsWith o "x-" = true → table o = some .idle

/-- The options of a string: its pieces between commas without blanks around
them. -/
def optionsOf (options : String) : List String :=
  ((split options ',').map trim).filter (· ≠ "")

section Table

variable (table : OptionTable)

/-- What an option does to the flags. -/
def mountEffect (o : String) : Toggle MsFlag := (table o).getD .idle

/-- The flags mount(8) passes. -/
def mountFlags (opts : List String) : MsFlags :=
  applyAll ∅ (opts.map (mountEffect table))

/-- The options mount(8) leaves to the file system. -/
def specificOptions (opts : List String) : List String :=
  opts.filter (fun o => table o = none)

/-- The flags and the data string are those of mount(8), and no generic option
is in the data string. -/
structure FollowsMount (options : String) : Prop where
  flags : (parseFlags options).1 = mountFlags table (optionsOf options)
  data : (parseFlags options).2 =
    ",".intercalate (specificOptions table (optionsOf options))
  clean : ∀ o ∈ split (parseFlags options).2 ',', o ≠ "" → table o = none

end Table

/-! ## What the loop computes -/

/-- The options `parse_flags` knows, with what it does on them. -/
def parsedOptions : List (String × Toggle MsFlag) :=
  [("ro", .switchOn {.rdonly}), ("rw", .idle), ("defaults", .idle),
    ("auto", .idle), ("noauto", .idle), ("noexec", .switchOn {.noexec}),
    ("nosuid", .switchOn {.nosuid}), ("nodev", .switchOn {.nodev}),
    ("relatime", .switchOn {.relatime}),
    ("strictatime", .switchOn {.strictatime}),
    ("sync", .switchOn {.synchronous})]

def knownOptions : List String := parsedOptions.map Prod.fst

/-- What `parse_flags` does on an option. -/
def parsedEffect (o : String) : Toggle MsFlag :=
  (parsedOptions.lookup o).getD .idle

/-- An option that `parse_flags` does not know sets no flag. -/
theorem parsedEffect_of_unknown {o : String} (h : o ∉ knownOptions) :
    parsedEffect o = .idle := by
  have hnone : parsedOptions.lookup o = none := by
    rw [List.lookup_eq_none_iff]
    intro p hp
    rw [bne_iff_ne]
    rintro rfl
    exact h (List.mem_map_of_mem hp)
  rw [parsedEffect, hnone]
  rfl

/-- One round of the loop. -/
theorem parseOption_eq (acc : MsFlags × List String) (opt : String) :
    parseOption acc opt =
      if trim opt = "" then acc
      else (apply acc.1 (parsedEffect (trim opt)),
        acc.2 ++ if trim opt ∈ knownOptions then [] else [trim opt]) := by
  unfold parseOption
  generalize trim opt = o
  by_cases hknown : o ∈ knownOptions
  · have hcases : ∀ o ∈ knownOptions, o = "ro" ∨ o = "rw" ∨ o = "defaults" ∨
        o = "auto" ∨ o = "noauto" ∨ o = "noexec" ∨ o = "nosuid" ∨
        o = "nodev" ∨ o = "relatime" ∨ o = "strictatime" ∨ o = "sync" := by
      decide
    rcases hcases o hknown with rfl | rfl | rfl | rfl | rfl | rfl | rfl | rfl |
      rfl | rfl | rfl
    all_goals simp [knownOptions, parsedEffect, parsedOptions, List.lookup_cons]
  · have hidle : parsedEffect o = .idle := parsedEffect_of_unknown hknown
    rw [hidle, apply_idle, if_neg hknown]
    split
    -- the literals of the match are all known
    iterate 11 exact absurd (by decide) hknown
    by_cases hempty : o = ""
    · simp [hempty]
    · simp [hempty]

/-- The loop, from any point on. -/
theorem foldl_parseOption (opts : List String) (acc : MsFlags × List String) :
    opts.foldl parseOption acc =
      (applyAll acc.1
        (((opts.map trim).filter (· ≠ "")).map parsedEffect),
        acc.2 ++ ((opts.map trim).filter (· ≠ "")).filter
          (· ∉ knownOptions)) := by
  induction opts generalizing acc with
  | nil => simp [applyAll]
  | cons opt opts ih =>
      rw [List.foldl_cons, ih, parseOption_eq, List.map_cons]
      by_cases hempty : trim opt = ""
      · simp [hempty]
      · by_cases hknown : trim opt ∈ knownOptions
        · simp [hempty, hknown, applyAll]
        · simp [hempty, hknown, applyAll]

/-- **What `parse_flags` returns.** -/
theorem parseFlags_eq (options : String) :
    parseFlags options =
      (applyAll ∅ ((optionsOf options).map parsedEffect),
        ",".intercalate
          ((optionsOf options).filter (· ∉ knownOptions))) := by
  unfold parseFlags
  rw [foldl_parseOption, List.nil_append]
  rfl

/-! ## Commas -/

/-- Trimming adds no character. -/
theorem mem_trim {s : String} {c : Char} (h : c ∈ (trim s).toList) :
    c ∈ s.toList := by
  rw [trim, String.toList_ofList, List.mem_reverse] at h
  have hback := (List.dropWhile_sublist _).mem h
  rw [List.mem_reverse] at hback
  exact (List.dropWhile_sublist _).mem hback

/-- The options are not empty and have no comma. -/
theorem of_mem_optionsOf {options o : String} (h : o ∈ optionsOf options) :
    o ≠ "" ∧ ',' ∉ o.toList := by
  obtain ⟨hmem, hne⟩ := List.mem_filter.mp h
  obtain ⟨piece, hpiece, rfl⟩ := List.mem_map.mp hmem
  obtain ⟨chars, hchars, rfl⟩ := List.mem_map.mp hpiece
  refine ⟨of_decide_eq_true hne, fun hcomma => ?_⟩
  have hin : ',' ∈ chars := by simpa using mem_trim hcomma
  rw [List.splitOn_eq_splitOnP] at hchars
  have hno := (Splitting.mem_splitOnP _).mp ⟨chars, hchars, hin⟩
  exact absurd hno.2 (by decide)

/-- Joined options are split into the same options again. -/
theorem split_join {opts : List String} (hne : opts ≠ [])
    (hcomma : ∀ o ∈ opts, ',' ∉ o.toList) :
    split (",".intercalate opts) ',' = opts := by
  have hpieces : ∀ l ∈ opts.map String.toList, ',' ∉ l := by
    intro l hl
    obtain ⟨o, ho, rfl⟩ := List.mem_map.mp hl
    exact hcomma o ho
  have hsep : ",".toList = [','] := rfl
  unfold split
  rw [String.toList_intercalate, hsep,
    List.splitOn_intercalate ',' hpieces (by simpa using hne), List.map_map]
  simp [Function.comp_def]

/-- Two lists of options with the same joined string are the same. -/
theorem join_inj {opts opts' : List String}
    (h : ∀ o ∈ opts, o ≠ "" ∧ ',' ∉ o.toList)
    (h' : ∀ o ∈ opts', o ≠ "" ∧ ',' ∉ o.toList)
    (heq : ",".intercalate opts = ",".intercalate opts') : opts = opts' := by
  -- only the empty list gives the empty string
  have hnil : ∀ l : List String, (∀ o ∈ l, o ≠ "" ∧ ',' ∉ o.toList) →
      ",".intercalate l = "" → l = [] := by
    intro l hl hempty
    by_contra hne
    have hsplit := split_join hne (fun o ho => (hl o ho).2)
    rw [hempty] at hsplit
    have hmem : "" ∈ l := by
      rw [← hsplit]
      decide
    exact (hl "" hmem).1 rfl
  by_cases hempty : opts = []
  · subst hempty
    exact (hnil opts' h' heq.symm).symm
  · by_cases hempty' : opts' = []
    · subst hempty'
      exact hnil opts h heq
    · rw [← split_join hempty (fun o ho => (h o ho).2), heq,
        split_join hempty' (fun o ho => (h' o ho).2)]

/-! ## Where the two agree -/

/-- On the options that `parse_flags` knows, it switches on the flags that are
documented, and only `rw` is documented to switch one off. -/
theorem known_documented : ∀ o ∈ knownOptions, ∃ p ∈ documentedOptions,
    p.1 = o ∧ p.2.on = (parsedEffect o).on ∧
      p.2.off = if o = "rw" then {.rdonly} else ∅ := by
  decide

/-- `parse_flags` switches nothing off, and only `ro` makes it read-only. -/
theorem parsedEffect_spec (o : String) :
    (parsedEffect o).off = ∅ ∧ (.rdonly ∈ (parsedEffect o).on ↔ o = "ro") := by
  have hknown : ∀ o ∈ knownOptions, (parsedEffect o).off = ∅ ∧
      (.rdonly ∈ (parsedEffect o).on ↔ o = "ro") := by
    decide
  by_cases h : o ∈ knownOptions
  · exact hknown o h
  · have hro : o ≠ "ro" := by
      rintro rfl
      exact h (by decide)
    rw [parsedEffect_of_unknown h]
    simp [Toggle.idle, hro]

section Agreement

variable {table : OptionTable}

/-- A documented table knows what `parse_flags` knows. -/
theorem Documented.effect (h : Documented table) :
    ∀ o ∈ knownOptions, ∃ t, table o = some t ∧ t.on = (parsedEffect o).on ∧
      t.off = if o = "rw" then {.rdonly} else ∅ := by
  intro o ho
  obtain ⟨p, hp, rfl, hon, hoff⟩ := known_documented o ho
  exact ⟨p.2, h.options p hp, hon, hoff⟩

/-- No option that `parse_flags` knows is for the file system. -/
theorem Documented.generic (h : Documented table) {o : String}
    (ho : o ∈ knownOptions) : table o ≠ none := by
  obtain ⟨t, ht, -⟩ := h.effect o ho
  rw [ht]
  nofun

/-- The options are known to `parse_flags` or for the file system. -/
def Supported (table : OptionTable) (opts : List String) : Prop :=
  ∀ o ∈ opts, o ∈ knownOptions ∨ table o = none

instance (table : OptionTable) (opts : List String) :
    Decidable (Supported table opts) :=
  inferInstanceAs (Decidable (∀ o ∈ opts, o ∈ knownOptions ∨ table o = none))

/-- Some `ro`, if there is one, has no `rw` behind it. -/
def ReadOnlyKept (opts : List String) : Prop :=
  "ro" ∈ opts → ∃ front back, opts = front ++ "ro" :: back ∧ "rw" ∉ back

/-- On supported options both switch the same flags on, and mount(8) switches
one off for `rw` only. -/
theorem Supported.effect (hdoc : Documented table) {opts : List String}
    (h : Supported table opts) :
    ∀ o ∈ opts, (mountEffect table o).on = (parsedEffect o).on ∧
      (mountEffect table o).off = if o = "rw" then {.rdonly} else ∅ := by
  intro o ho
  by_cases hknown : o ∈ knownOptions
  · obtain ⟨t, ht, heffect⟩ := hdoc.effect o hknown
    rw [mountEffect, ht]
    exact heffect
  · have hspecific := (h o ho).resolve_left hknown
    have hrw : o ≠ "rw" := by
      rintro rfl
      exact hknown (by decide)
    rw [mountEffect, hspecific, parsedEffect_of_unknown hknown, if_neg hrw]
    exact ⟨rfl, rfl⟩

/-- The flags of `parse_flags`: all that an option switches on. -/
theorem mem_parsedFlags {opts : List String} {f : MsFlag} :
    f ∈ applyAll ∅ (opts.map parsedEffect) ↔
      ∃ o ∈ opts, f ∈ (parsedEffect o).on := by
  rw [mem_applyAll_of_no_off]
  · simp
  · intro t ht
    obtain ⟨o, -, rfl⟩ := List.mem_map.mp ht
    simp [(parsedEffect_spec o).1]

/-- Flags other than read-only agree on supported options. -/
theorem Supported.mem_mountFlags (hdoc : Documented table)
    {opts : List String} (h : Supported table opts) {f : MsFlag}
    (hf : f ≠ .rdonly) :
    f ∈ mountFlags table opts ↔
      f ∈ applyAll ∅ (opts.map parsedEffect) := by
  rw [mem_parsedFlags, mountFlags, mem_applyAll_of_no_off]
  · simp only [Finset.notMem_empty, false_or, List.mem_map,
      exists_exists_and_eq_and]
    constructor
    · rintro ⟨o, ho, hon⟩
      exact ⟨o, ho, (h.effect hdoc o ho).1 ▸ hon⟩
    · rintro ⟨o, ho, hon⟩
      exact ⟨o, ho, (h.effect hdoc o ho).1 ▸ hon⟩
  · intro t ht
    obtain ⟨o, ho, rfl⟩ := List.mem_map.mp ht
    rw [(h.effect hdoc o ho).2]
    split
    · simpa using hf
    · simp

/-- mount(8) mounts read-only when an `ro` has no `rw` behind it. Among
supported options these two are the only ones that touch the flag, and the last
of them wins. -/
theorem Supported.rdonly_mem_mountFlags (hdoc : Documented table)
    {opts : List String} (h : Supported table opts) :
    .rdonly ∈ mountFlags table opts ↔
      ∃ front back, opts = front ++ "ro" :: back ∧ "rw" ∉ back := by
  have hon : ∀ o ∈ opts,
      .rdonly ∈ (mountEffect table o).on ↔ o = "ro" := by
    intro o ho
    rw [(h.effect hdoc o ho).1]
    exact (parsedEffect_spec o).2
  have hoff : ∀ o ∈ opts,
      .rdonly ∈ (mountEffect table o).off ↔ o = "rw" := by
    intro o ho
    rw [(h.effect hdoc o ho).2]
    by_cases hrw : o = "rw"
    · simp [hrw]
    · simp [hrw]
  rw [mountFlags, mem_applyAll]
  constructor
  · rintro (⟨front, t, back, hsplit, hset, hkept⟩ | ⟨hempty, -⟩)
    · obtain ⟨front, rest, rfl, rfl, hrest⟩ := List.map_eq_append_iff.mp hsplit
      obtain ⟨o, back, rfl, rfl, rfl⟩ := List.map_eq_cons_iff.mp hrest
      have hro : o = "ro" := (hon o (by simp)).mp hset
      subst hro
      refine ⟨front, back, rfl, fun hrw => ?_⟩
      exact hkept _ (List.mem_map_of_mem hrw)
        ((hoff "rw" (by simp [hrw])).mpr rfl)
    · exact absurd hempty (Finset.notMem_empty _)
  · rintro ⟨front, back, rfl, hrw⟩
    refine .inl ⟨front.map (mountEffect table), mountEffect table "ro",
      back.map (mountEffect table), by simp,
      (hon "ro" (by simp)).mpr rfl, ?_⟩
    intro u hu hout
    obtain ⟨o, ho, rfl⟩ := List.mem_map.mp hu
    have heq : o = "rw" := (hoff o (by simp [ho])).mp hout
    exact hrw (heq ▸ ho)

/-- On supported options the flags agree when the read-only flag does. All
other flags are set by the same options in both, and supported options clear
none of them. -/
theorem Supported.flags_eq_iff (hdoc : Documented table)
    {opts : List String} (h : Supported table opts) :
    applyAll ∅ (opts.map parsedEffect) = mountFlags table opts ↔
      ReadOnlyKept opts := by
  have hro : .rdonly ∈ applyAll ∅ (opts.map parsedEffect) ↔ "ro" ∈ opts := by
    rw [mem_parsedFlags]
    constructor
    · rintro ⟨o, ho, hon⟩
      exact (parsedEffect_spec o).2.mp hon ▸ ho
    · intro ho
      exact ⟨"ro", ho, (parsedEffect_spec "ro").2.mpr rfl⟩
  constructor
  · intro heq hmem
    rw [← h.rdonly_mem_mountFlags hdoc, ← heq]
    exact hro.mpr hmem
  · intro hkept
    ext f
    by_cases hf : f = .rdonly
    · subst hf
      rw [hro, h.rdonly_mem_mountFlags hdoc]
      constructor
      · exact hkept
      · rintro ⟨front, back, rfl, -⟩
        simp
    · exact (h.mem_mountFlags hdoc hf).symm

/-- When the data strings agree, the options that `parse_flags` does not know
are for the file system. -/
theorem supported_iff (hdoc : Documented table) {options : String} :
    ",".intercalate ((optionsOf options).filter (· ∉ knownOptions)) =
        ",".intercalate (specificOptions table (optionsOf options)) ↔
      Supported table (optionsOf options) := by
  constructor
  · intro heq o ho
    have hlists := join_inj
      (fun o ho => of_mem_optionsOf (List.mem_of_mem_filter ho))
      (fun o ho => of_mem_optionsOf (List.mem_of_mem_filter ho)) heq
    by_cases hknown : o ∈ knownOptions
    · exact .inl hknown
    · have hmem : o ∈ (optionsOf options).filter (· ∉ knownOptions) :=
        List.mem_filter.mpr ⟨ho, decide_eq_true hknown⟩
      rw [hlists] at hmem
      exact .inr (of_decide_eq_true (List.mem_filter.mp hmem).2)
  · intro h
    congr 1
    refine List.filter_congr fun o ho => ?_
    rw [decide_eq_decide]
    constructor
    · exact fun hunknown => (h o ho).resolve_left hunknown
    · exact fun hspecific hknown => hdoc.generic hknown hspecific

end Agreement

/-- **When the options are translated as mount(8) does.**  That is so exactly
when every option is one that `parse_flags` knows or one for the file system,
and no `rw` comes behind the last `ro`. -/
theorem mount_options_followed_iff (table : OptionTable)
    (htable : Documented table) (options : String) :
    FollowsMount table options ↔
      Supported table (optionsOf options) ∧
        ReadOnlyKept (optionsOf options) := by
  constructor
  · intro h
    have hdata := h.data
    have hflags := h.flags
    rw [parseFlags_eq] at hdata hflags
    have hsupported := (supported_iff htable).mp hdata
    exact ⟨hsupported, (hsupported.flags_eq_iff htable).mp hflags⟩
  · rintro ⟨hsupported, hkept⟩
    have hdata : (parseFlags options).2 =
        ",".intercalate (specificOptions table (optionsOf options)) := by
      rw [parseFlags_eq]
      exact (supported_iff htable).mpr hsupported
    constructor
    · rw [parseFlags_eq]
      exact (hsupported.flags_eq_iff htable).mpr hkept
    · exact hdata
    · intro o ho hne
      rw [hdata] at ho
      by_cases hnil : specificOptions table (optionsOf options) = []
      · rw [hnil] at ho
        exact absurd (List.mem_singleton.mp ho) hne
      · rw [split_join hnil (fun o' ho' =>
          (of_mem_optionsOf (List.mem_of_mem_filter ho')).2)] at ho
        exact of_decide_eq_true (List.mem_filter.mp ho).2

/-! ## The table on Linux -/

/-- The generic options on Linux that are given as they stand. -/
def linuxOptions : List (String × Toggle MsFlag) :=
  documentedOptions ++
    [("dirsync", .switchOn {.dirsync}), ("remount", .switchOn {.remount}),
      ("bind", .switchOn {.bind}), ("rbind", .switchOn {.bind, .recursive}),
      ("move", .switchOn {.move}),
      ("silent", .switchOn {.silent}), ("loud", .switchOff {.silent}),
      ("mand", .switchOn {.mandlock}), ("nomand", .switchOff {.mandlock}),
      ("atime", .switchOff {.noatime}),
      ("iversion", .switchOn {.iVersion}),
      ("noiversion", .switchOff {.iVersion}),
      ("nodiratime", .switchOn {.nodiratime}),
      ("diratime", .switchOff {.nodiratime}),
      ("norelatime", .switchOff {.relatime}),
      ("nostrictatime", .switchOff {.strictatime}),
      ("lazytime", .switchOn {.lazytime}),
      ("nolazytime", .switchOff {.lazytime}),
      ("nosymfollow", .switchOn {.nosymfollow}),
      ("symfollow", .switchOff {.nosymfollow}),
      ("unbindable", .switchOn {.unbindable}),
      ("runbindable", .switchOn {.unbindable, .recursive}),
      ("private", .switchOn {.private}),
      ("rprivate", .switchOn {.private, .recursive}),
      ("slave", .switchOn {.slave}), ("rslave", .switchOn {.slave, .recursive}),
      ("shared", .switchOn {.shared}), ("rshared", .switchOn {.shared, .recursive}),
      ("users", .switchOn {.noexec, .nosuid, .nodev}),
      ("owner", .switchOn {.nosuid, .nodev}),
      ("group", .switchOn {.nosuid, .nodev}),
      ("nouser", .idle), ("nousers", .idle), ("noowner", .idle),
      ("nogroup", .idle), ("loop", .idle)]

/-- How the generic options on Linux begin that carry a value. -/
def linuxPrefixes : List String :=
  ["x-", "X-", "comment=", "user=", "loop=", "offset=", "sizelimit=",
    "encryption=", "helper=", "uhelper=", "verity."]

/-- The table of mount(8) on Linux.  The security contexts are not generic: they
are passed on to the kernel with the options of the file system. -/
def linuxTable : OptionTable := fun o =>
  match linuxOptions.lookup o with
  | some t => some t
  | none => if linuxPrefixes.any (startsWith o) then some .idle else none

/-- The table on Linux is as documented. -/
theorem linuxTable_documented : Documented linuxTable := by
  have hnames : ∀ p ∈ linuxOptions, startsWith p.1 "x-" = false := by decide
  refine ⟨by decide, ?_⟩
  intro o ho
  have hnone : linuxOptions.lookup o = none := by
    rw [List.lookup_eq_none_iff]
    intro p hp
    rw [bne_iff_ne]
    rintro rfl
    rw [hnames p hp] at ho
    cases ho
  simp [linuxTable, hnone, linuxPrefixes, ho]

/-- Options of a removable disk. -/
theorem mount_options_followed_iff_stick :
    FollowsMount linuxTable "rw,nosuid,nodev,uid=1000,umask=077" :=
  (mount_options_followed_iff linuxTable linuxTable_documented _).mpr
    ⟨by decide, fun hro => absurd hro (by decide)⟩

/-- A later `rw` does not take `ro` back, and `nofail` goes to the file
system. -/
theorem options_not_followed :
    ¬ FollowsMount linuxTable "ro,rw" ∧
      ¬ FollowsMount linuxTable "defaults,nofail" := by
  constructor
  · intro h
    exact absurd h.flags (by decide)
  · intro h
    exact absurd h.data (by decide)

end FlintInit

import FlintInit.Cache
import FlintInit.Catalog
import FlintInit.Library.Interleaving
import FlintInit.Library.Replacement

/-!
# The catalog cache

`fetch_catalog` keeps what it has fetched in a file for a day.  Any number of
calls may run side by side, each is taken apart into its accesses to the file
system, any access may fail, and a call may be killed anywhere.

As long as no call opens the temporary file while another has it open, what
comes out of the cache is a text that the server has sent as a whole, and that
was written less than a day before the look at the cache (`fetched_whole`).
What is written is out of the reach of other users at all times
(`cache_private`).
-/

namespace FlintInit.Get

/-- `CATALOG_URL`. -/
def catalogUrl : String :=
  "https://raw.githubusercontent.com/RicePollution/flint-init/main/catalog.toml"

/-- `CACHE_TTL_SECS`, in nanoseconds. -/
def cacheTtl : Int := 86400 * 1000000000

def noSuchFile : String := "No such file or directory (os error 2)"

/-- The bytes of a text. -/
def utf8 (text : String) : List UInt8 := text.toUTF8.data.toList

/-- The text that bytes are read as. -/
def fromUtf8 (bytes : List UInt8) : Except String String :=
  match String.fromUTF8? ⟨bytes.toArray⟩ with
  | some text => .ok text
  | none => .error "stream did not contain valid UTF-8"

/-- A text that is written comes back when it is read. -/
theorem fromUtf8_utf8 (text : String) : fromUtf8 (utf8 text) = .ok text := by
  have h : String.fromUTF8? ⟨(utf8 text).toArray⟩ = some text := by
    unfold String.fromUTF8?
    exact dif_pos text.isValidUTF8
  simp only [fromUtf8, h]

/-- `modified.elapsed()` is a time below the limit; it is an error for a time
to come. -/
def fresh (now modified : SystemTime) : Bool :=
  0 ≤ now - modified && now - modified < cacheTtl

/-- A cache is fresh for less than a day after it was written. -/
theorem lt_of_fresh {now modified : SystemTime}
    (h : fresh now modified = true) : now - cacheTtl < modified := by
  unfold fresh at h
  rw [Bool.and_eq_true, decide_eq_true_eq, decide_eq_true_eq] at h
  exact Int.sub_lt_of_sub_lt h.2

/-- Where a text comes from: the server, or the cache, with the time of the
look at it. -/
inductive Origin where
  | server
  | cache (looked : SystemTime)
  deriving DecidableEq

/-- The place in `fetch_catalog` and `write_catalog_cache`. -/
inductive Fetch where
  | look
  | opening (looked : SystemTime)
  | read (looked : SystemTime) (file : Nat) (got : List UInt8)
  | request
  | createDir (content : String)
  | restrictDir (content : String)
  | create (content : String)
  | write (content : String) (file : Nat) (sent rest : List UInt8)
  | restrict (content : String) (file : Nat) (sent : List UInt8)
  | rename (content : String) (file : Nat) (sent : List UInt8)
  | done (content : String) (origin : Origin)
  | failed (e : String)
  | killed
  deriving DecidableEq

/-- What `fetch_catalog` returns. -/
def Fetch.result (fromStr : String → Except String Catalog) :
    Fetch → Option (Except String Catalog)
  | .done content _ => some (fromStr content)
  | .failed e => some (.error e)
  | _ => none

/-- The temporary file that a call has opened. -/
def Fetch.writer : Fetch → Replacement.Writer UInt8
  | .write _ file sent rest => .writing file sent rest
  | .restrict _ file sent => .writing file sent []
  | .rename _ file sent => .writing file sent []
  | _ => .idle

def Fetch.writes : Fetch → Bool
  | .write _ _ _ _ => true
  | .restrict _ _ _ => true
  | .rename _ _ _ => true
  | _ => false

/-- The outside world during one step: whether the cache can be looked at, how
the request ends, how the access to the file system ends, and how many more
bytes it takes. -/
structure Answers where
  visible : Bool
  response : Response
  io : Except String Unit
  more : Nat

/-- The directory of the cache, the calls, the warnings printed, what the
server has sent, and what has been put under the name of the cache, with the
time it was written. -/
structure Cache where
  clock : SystemTime
  folder : Replacement.Folder UInt8
  stamp : Nat → SystemTime
  mode : Nat → Nat
  dirMode : Option Nat
  fetches : List Fetch
  warnings : List String
  served : List String
  placed : List (List UInt8 × SystemTime)

inductive CacheAction where
  | tick (nanos : Nat)
  | fetch
  | advance (i : Nat) (answers : Answers)
  | kill (i : Nat)

namespace Cache

/-- The `i`-th call has come further. -/
def moveTo (c : Cache) (i : Nat) (fetch : Fetch) : Cache :=
  { c with fetches := c.fetches.set i fetch }

/-- `write_catalog_cache` fails, and the text is used all the same. -/
def giveUp (c : Cache) (i : Nat) (content e : String) : Cache :=
  { c.moveTo i (.done content .server) with
    warnings := ("flint-ctl: warning: could not write catalog cache: " ++ e) ::
      c.warnings }

/-- A step of the `i`-th call; `umask` is what is left of the mode of a new
file. -/
def advance (umask : Nat → Nat) (c : Cache) (i : Nat) (a : Answers) :
    Fetch → Cache
  | .look =>
      match c.folder.target with
      | none => c.moveTo i .request
      | some n =>
          c.moveTo i
            (if a.visible && fresh c.clock (c.stamp n) then .opening c.clock
            else .request)
  | .opening looked =>
      match a.io, c.folder.target with
      | .error e, _ => c.moveTo i (.failed e)
      | .ok (), none => c.moveTo i (.failed noSuchFile)
      | .ok (), some n => c.moveTo i (.read looked n [])
  | .read looked n got =>
      match a.io, (c.folder.data n).drop got.length with
      | .error e, _ => c.moveTo i (.failed e)
      | .ok (), [] =>
          c.moveTo i
            (match fromUtf8 got with
            | .error e => .failed e
            | .ok content => .done content (.cache looked))
      | .ok (), rest =>
          c.moveTo i (.read looked n (got ++ rest.take (a.more + 1)))
  | .request =>
      match a.response with
      | .body text =>
          { c.moveTo i (.createDir text) with served := text :: c.served }
      | .unreadable e => c.moveTo i (.failed e)
      | .notFound e => c.moveTo i (.failed ("failed to fetch catalog: " ++ e))
      | .failed e => c.moveTo i (.failed ("failed to fetch catalog: " ++ e))
  | .createDir content =>
      match a.io with
      | .error e => c.giveUp i content e
      | .ok () =>
          { c.moveTo i (.restrictDir content) with
            dirMode := some (c.dirMode.getD (umask 0o777)) }
  | .restrictDir content =>
      match a.io with
      | .error e => c.giveUp i content e
      | .ok () =>
          { c.moveTo i (.create content) with
            dirMode := some 0o700 }
  | .create content =>
      match a.io with
      | .error e => c.giveUp i content e
      | .ok () =>
          let n := c.folder.scratch
          { c.moveTo i (.write content n [] (utf8 content)) with
            folder := c.folder.create
            stamp := Function.update c.stamp n c.clock
            mode := if c.folder.tmp.isNone then
              Function.update c.mode n (umask 0o666) else c.mode }
  | .write content file sent rest =>
      match a.io, rest with
      | .error e, _ => c.giveUp i content e
      | .ok (), [] => c.moveTo i (.restrict content file sent)
      | .ok (), rest =>
          let piece := rest.take (a.more + 1)
          { c.moveTo i
              (.write content file (sent ++ piece) (rest.drop (a.more + 1))) with
            folder := c.folder.put file sent.length piece
            stamp := Function.update c.stamp file c.clock }
  | .restrict content file sent =>
      match a.io, c.folder.tmp with
      | .error e, _ => c.giveUp i content e
      | .ok (), none => c.giveUp i content noSuchFile
      | .ok (), some n =>
          { c.moveTo i (.rename content file sent) with
            mode := Function.update c.mode n 0o600 }
  | .rename content _ _ =>
      match a.io, c.folder.tmp with
      | .error e, _ => c.giveUp i content e
      | .ok (), none => c.giveUp i content noSuchFile
      | .ok (), some n =>
          { c.moveTo i (.done content .server) with
            folder := { c.folder with tmp := none, target := some n }
            placed := (c.folder.data n, c.stamp n) :: c.placed }
  | .done _ _ => c
  | .failed _ => c
  | .killed => c

def step (umask : Nat → Nat) (action : CacheAction) (c : Cache) : Cache :=
  match action with
  | .tick nanos => { c with clock := c.clock + nanos }
  | .fetch => { c with fetches := c.fetches ++ [.look] }
  | .advance i answers =>
      match c.fetches[i]? with
      | none => c
      | some fetch => c.advance umask i answers fetch
  | .kill i => c.moveTo i .killed

/-- The temporary file is opened only while no call has it open. -/
def Serial (action : CacheAction) (c : Cache) : Prop :=
  match action with
  | .advance i _ =>
      match c.fetches[i]? with
      | some (.create _) => ∀ fetch ∈ c.fetches, fetch.writes = false
      | _ => True
  | _ => True

instance (action : CacheAction) (c : Cache) : Decidable (c.Serial action) := by
  unfold Serial
  split
  · split <;> infer_instance
  · infer_instance

/-- A directory with an old cache and an old temporary file in it, or without,
and no call yet. -/
def initial (clock : SystemTime) (dirMode : Option Nat)
    (cached : Option (List UInt8 × SystemTime))
    (leftover : Option (List UInt8)) (mode : Nat → Nat) : Cache where
  clock := clock
  folder :=
    { data := fun n =>
        if n = 0 then (cached.map Prod.fst).getD [] else leftover.getD []
      next := 2
      tmp := leftover.map fun _ => 1
      target := cached.map fun _ => 0 }
  stamp := fun _ => (cached.map Prod.snd).getD clock
  mode := mode
  dirMode := dirMode
  fetches := []
  warnings := []
  served := []
  placed := cached.toList

/-! ## The calls as writers of one file -/

/-- The folder and who is writing. -/
def replacement (c : Cache) : Replacement.State Nat UInt8 where
  folder := c.folder
  writers := Replacement.writersOf Fetch.writer c.fetches

section Writers

variable {c c' : Cache} {i : Nat}

/-- The cache with the `i`-th call at another place. -/
theorem replacement_set {fetch' : Fetch} (hi : i < c.fetches.length)
    (hfetches : c'.fetches = c.fetches.set i fetch') :
    c'.replacement = ⟨c'.folder,
      Function.update c.replacement.writers i fetch'.writer⟩ := by
  unfold replacement
  rw [hfetches, Replacement.writersOf_set hi]

/-- A call that leaves the files as they are goes on writing or gives up. -/
theorem replacement_stay {fetch fetch' : Fetch}
    (hi : c.fetches[i]? = some fetch) (hfolder : c'.folder = c.folder)
    (hfetches : c'.fetches = c.fetches.set i fetch')
    (hwriter : fetch'.writer = .idle ∨ fetch'.writer = fetch.writer) :
    c'.replacement = c.replacement ∨
      c'.replacement = Replacement.step (.drop i) c.replacement := by
  obtain ⟨hlt, -⟩ := List.getElem?_eq_some_iff.mp hi
  have hset := replacement_set hlt hfetches
  rw [hfolder] at hset
  rcases hwriter with hidle | hsame
  · right
    rw [hset, hidle]
    rfl
  · left
    have hwas : c.replacement.writers i = fetch.writer :=
      Replacement.writersOf_of hi
    rw [hset, hsame, ← hwas, Function.update_eq_self]
    rfl

/-- Opening the temporary file is the library's `create`. -/
theorem replacement_create {content : String}
    (hi : c.fetches[i]? = some (.create content))
    (hfolder : c'.folder = c.folder.create)
    (hfetches : c'.fetches = c.fetches.set i
      (.write content c.folder.scratch [] (utf8 content))) :
    c'.replacement =
      Replacement.step (.create i (utf8 content)) c.replacement := by
  obtain ⟨hlt, -⟩ := List.getElem?_eq_some_iff.mp hi
  have hidle : c.replacement.writers i = .idle :=
    Replacement.writersOf_of hi
  rw [replacement_set hlt hfetches, Replacement.step_create hidle, hfolder]
  rfl

/-- Writing a piece is the library's `put`. -/
theorem replacement_put {content : String} {file : Nat}
    {sent rest : List UInt8} {k : Nat}
    (hi : c.fetches[i]? = some (.write content file sent rest))
    (hfolder : c'.folder = c.folder.put file sent.length (rest.take k))
    (hfetches : c'.fetches = c.fetches.set i
      (.write content file (sent ++ rest.take k) (rest.drop k))) :
    c'.replacement = Replacement.step (.put i k) c.replacement := by
  obtain ⟨hlt, -⟩ := List.getElem?_eq_some_iff.mp hi
  have hwriter : c.replacement.writers i = .writing file sent rest :=
    Replacement.writersOf_of hi
  rw [replacement_set hlt hfetches, Replacement.step_put hwriter, hfolder]
  rfl

/-- The renaming is the library's, whatever file has the temporary name. -/
theorem replacement_rename {content : String} {file n : Nat}
    {sent : List UInt8} {origin : Origin}
    (hi : c.fetches[i]? = some (.rename content file sent))
    (htmp : c.folder.tmp = some n)
    (hfolder : c'.folder = { c.folder with tmp := none, target := some n })
    (hfetches : c'.fetches = c.fetches.set i (.done content origin)) :
    c'.replacement = Replacement.step (.rename i) c.replacement := by
  obtain ⟨hlt, -⟩ := List.getElem?_eq_some_iff.mp hi
  have hwriter : c.replacement.writers i = .writing file sent [] :=
    Replacement.writersOf_of hi
  have hrename : c.folder.rename =
      some { c.folder with tmp := none, target := some n } := by
    unfold Replacement.Folder.rename
    rw [htmp]
    rfl
  rw [replacement_set hlt hfetches, Replacement.step_rename hwriter, hfolder]
  change _ = (⟨c.folder.rename.getD c.folder, _⟩ :
    Replacement.State Nat UInt8)
  rw [hrename]
  rfl

/-- A call that opens the temporary file while nobody has it open. -/
theorem alone_of_serial {content : String} {a : Answers}
    (hi : c.fetches[i]? = some (.create content))
    (hserial : c.Serial (.advance i a)) (j : Nat) :
    c.replacement.writers j = .idle := by
  refine Replacement.writersOf_idle ?_ j
  simp only [Cache.Serial, hi] at hserial
  intro other hin
  have hidle := hserial other hin
  cases other with
  | write _ _ _ _ => cases hidle
  | restrict _ _ _ => cases hidle
  | rename _ _ _ => cases hidle
  | _ => rfl

/-- The library takes one step or none. -/
def Follows (action : CacheAction) (c c' : Cache) : Prop :=
  c'.replacement = c.replacement ∨
    ∃ a, c'.replacement = Replacement.step a c.replacement ∧
      (c.Serial action → Replacement.Alone a c.replacement)

/-- To go on, or to give up, is no step of the library or its `drop`. -/
theorem follows_of_stay {action : CacheAction}
    (h : c'.replacement = c.replacement ∨
      c'.replacement = Replacement.step (.drop i) c.replacement) :
    Follows action c c' :=
  h.imp_right (fun hdrop => ⟨.drop i, hdrop, fun _ => True.intro⟩)

/-- **A step of a call is a step of the library, or none.** Up to the opening
of the temporary file a call touches no file, and after its renaming neither;
in between each access is one of the library's, and a failure is its `drop`. -/
theorem advance_follows {a : Answers} {fetch : Fetch}
    (hi : c.fetches[i]? = some fetch) (umask : Nat → Nat) :
    Follows (.advance i a) c (c.advance umask i a fetch) := by
  have hmove : ∀ fetch' : Fetch,
      fetch'.writer = .idle ∨ fetch'.writer = fetch.writer →
        Follows (.advance i a) c (c.moveTo i fetch') :=
    fun _ hwriter => follows_of_stay (replacement_stay hi rfl rfl hwriter)
  have hgive : ∀ content e,
      Follows (.advance i a) c (c.giveUp i content e) :=
    fun _ _ => follows_of_stay (replacement_stay hi rfl rfl (.inl rfl))
  cases fetch with
  | look =>
      simp only [Cache.advance]
      split
      · exact hmove _ (.inl rfl)
      · split
        · exact hmove _ (.inl rfl)
        · exact hmove _ (.inl rfl)
  | opening looked =>
      simp only [Cache.advance]
      split <;> exact hmove _ (.inl rfl)
  | read looked n got =>
      simp only [Cache.advance]
      split
      · exact hmove _ (.inl rfl)
      · cases fromUtf8 got with
        | error e => exact hmove _ (.inl rfl)
        | ok content => exact hmove _ (.inl rfl)
      · exact hmove _ (.inl rfl)
  | request =>
      simp only [Cache.advance]
      split
      · exact follows_of_stay (replacement_stay hi rfl rfl (.inl rfl))
      · exact hmove _ (.inl rfl)
      · exact hmove _ (.inl rfl)
      · exact hmove _ (.inl rfl)
  | createDir content =>
      simp only [Cache.advance]
      split
      · exact hgive _ _
      · exact follows_of_stay (replacement_stay hi rfl rfl (.inl rfl))
  | restrictDir content =>
      simp only [Cache.advance]
      split
      · exact hgive _ _
      · exact follows_of_stay (replacement_stay hi rfl rfl (.inl rfl))
  | create content =>
      simp only [Cache.advance]
      split
      · exact hgive _ _
      · refine .inr ⟨.create i (utf8 content), ?_, alone_of_serial hi⟩
        exact replacement_create hi rfl rfl
  | write content file sent rest =>
      simp only [Cache.advance]
      split
      · exact hgive _ _
      · exact hmove _ (.inr rfl)
      · refine .inr ⟨.put i (a.more + 1), ?_, fun _ => True.intro⟩
        exact replacement_put hi rfl rfl
  | restrict content file sent =>
      simp only [Cache.advance]
      split
      · exact hgive _ _
      · exact hgive _ _
      · exact follows_of_stay (replacement_stay hi rfl rfl (.inr rfl))
  | rename content file sent =>
      simp only [Cache.advance]
      split
      · exact hgive _ _
      · exact hgive _ _
      · refine .inr ⟨.rename i, ?_, fun _ => True.intro⟩
        exact replacement_rename hi ‹_› rfl rfl
  | done content origin => exact .inl rfl
  | failed e => exact .inl rfl
  | killed => exact .inl rfl

/-- Every step of the system, likewise. -/
theorem step_follows (umask : Nat → Nat) (action : CacheAction) :
    Follows action c (c.step umask action) := by
  cases action with
  | tick nanos => exact .inl rfl
  | fetch =>
      left
      unfold replacement Cache.step
      dsimp only
      rw [Replacement.writersOf_concat rfl]
  | advance i a =>
      unfold Cache.step
      dsimp only
      split
      · exact .inl rfl
      · exact advance_follows ‹_› umask
  | kill i =>
      cases hi : c.fetches[i]? with
      | none =>
          have hlen := List.getElem?_eq_none_iff.mp hi
          left
          unfold Cache.step moveTo
          dsimp only
          rw [List.set_eq_of_length_le hlen]
      | some fetch =>
          exact follows_of_stay (replacement_stay hi rfl rfl (.inl rfl))

end Writers

/-! ## What is kept -/

/-- A text that the server has sent, or the old cache. -/
def Whole (cached : Option (List UInt8 × SystemTime)) (c : Cache)
    (bytes : List UInt8) : Prop :=
  (∃ content ∈ c.served, bytes = utf8 content) ∨
    cached.map Prod.fst = some bytes

/-- What has been put in the cache: a text of the server, or the old cache. -/
def Listed (cached : Option (List UInt8 × SystemTime)) (c : Cache)
    (entry : List UInt8 × SystemTime) : Prop :=
  (∃ content ∈ c.served, entry.1 = utf8 content) ∨ cached = some entry

/-- What is true of a call at its place. -/
def Proper (c : Cache) : Fetch → Prop
  | .opening looked =>
      ∃ n, c.folder.target = some n ∧ looked - cacheTtl < c.stamp n
  | .read looked n got =>
      Replacement.Sealed c.replacement n ∧ got <+: c.folder.data n ∧
        (c.folder.data n, c.stamp n) ∈ c.placed ∧
        looked - cacheTtl < c.stamp n
  | .createDir content => content ∈ c.served
  | .restrictDir content => content ∈ c.served
  | .create content => content ∈ c.served
  | .write content _ sent rest =>
      content ∈ c.served ∧ sent ++ rest = utf8 content
  | .restrict content _ sent => content ∈ c.served ∧ sent = utf8 content
  | .rename content _ sent => content ∈ c.served ∧ sent = utf8 content
  | .done content .server => content ∈ c.served
  | .done content (.cache looked) =>
      ∃ bytes written, (bytes, written) ∈ c.placed ∧
        fromUtf8 bytes = .ok content ∧ looked - cacheTtl < written
  | _ => True

/-- What every run keeps, while the temporary file is opened by one call at a
time. -/
structure Kept (cached : Option (List UInt8 × SystemTime)) (c : Cache) :
    Prop where
  tidy : Replacement.Tidy (Whole cached c) c.replacement
  past : ∀ n, c.stamp n ≤ c.clock
  newer : ∀ i file sent rest, c.replacement.writers i =
    .writing file sent rest → ∀ n, c.folder.target = some n →
      c.stamp n ≤ c.stamp file
  listed : ∀ n, c.folder.target = some n →
    (c.folder.data n, c.stamp n) ∈ c.placed
  whole : ∀ entry ∈ c.placed, Listed cached c entry
  proper : ∀ fetch ∈ c.fetches, c.Proper fetch

/-- What one call does to the others. -/
structure Evolves (c c' : Cache) : Prop where
  served : ∀ content ∈ c.served, content ∈ c'.served
  placed : ∀ entry ∈ c.placed, entry ∈ c'.placed
  kept : ∀ n, Replacement.Sealed c.replacement n →
    Replacement.Sealed c'.replacement n ∧
      c'.folder.data n = c.folder.data n ∧ c'.stamp n = c.stamp n
  target : ∀ n, c.folder.target = some n →
    ∃ n', c'.folder.target = some n' ∧ c.stamp n ≤ c'.stamp n'

variable {c c' : Cache} {cached : Option (List UInt8 × SystemTime)}

/-- What another call does leaves each call where it was properly: what has
been sent stays sent, and a file that is being read is not written any more. -/
theorem Evolves.proper (h : Evolves c c') {fetch : Fetch}
    (hfetch : c.Proper fetch) : c'.Proper fetch := by
  cases fetch with
  | opening looked =>
      obtain ⟨n, hn, hfresh⟩ := hfetch
      obtain ⟨n', hn', hle⟩ := h.target n hn
      exact ⟨n', hn', Int.lt_of_lt_of_le hfresh hle⟩
  | read looked n got =>
      obtain ⟨hsealed, hgot, hplaced, hfresh⟩ := hfetch
      obtain ⟨hsealed', hdata, hstamp⟩ := h.kept n hsealed
      refine ⟨hsealed', ?_, ?_, ?_⟩
      · rwa [hdata]
      · rw [hdata, hstamp]
        exact h.placed _ hplaced
      · rwa [hstamp]
  | createDir content => exact h.served content hfetch
  | restrictDir content => exact h.served content hfetch
  | create content => exact h.served content hfetch
  | write content file sent rest =>
      exact ⟨h.served content hfetch.1, hfetch.2⟩
  | restrict content file sent => exact ⟨h.served content hfetch.1, hfetch.2⟩
  | rename content file sent => exact ⟨h.served content hfetch.1, hfetch.2⟩
  | done content origin =>
      cases origin with
      | server => exact h.served content hfetch
      | cache looked =>
          obtain ⟨bytes, written, hplaced, hrest⟩ := hfetch
          exact ⟨bytes, written, h.placed _ hplaced, hrest⟩
  | _ => exact True.intro

/-- What the server has sent stays whole when it sends more. -/
theorem Whole.mono (h : ∀ content ∈ c.served, content ∈ c'.served)
    {bytes : List UInt8} (hbytes : Whole cached c bytes) :
    Whole cached c' bytes := by
  rcases hbytes with ⟨content, hin, heq⟩ | hcached
  · exact .inl ⟨content, h content hin, heq⟩
  · exact .inr hcached

/-- What has been put in the cache stays accounted for when the server sends
more. -/
theorem Listed.mono (h : ∀ content ∈ c.served, content ∈ c'.served)
    {entry : List UInt8 × SystemTime} (hentry : Listed cached c entry) :
    Listed cached c' entry := by
  rcases hentry with ⟨content, hin, heq⟩ | hcached
  · exact .inl ⟨content, h content hin, heq⟩
  · exact .inr hcached

/-- One call has come further.  For the others it is enough that the step
evolves the cache; the place the call has come to and what is true of the files
have to be shown. -/
theorem Kept.of_set (h : Kept cached c) {i : Nat} {fetch' : Fetch}
    (hfetches : c'.fetches = c.fetches.set i fetch')
    (hevolves : Evolves c c')
    (htidy : Replacement.Tidy (Whole cached c') c'.replacement)
    (hpast : ∀ n, c'.stamp n ≤ c'.clock)
    (hnewer : ∀ i file sent rest, c'.replacement.writers i =
      .writing file sent rest → ∀ n, c'.folder.target = some n →
        c'.stamp n ≤ c'.stamp file)
    (hlisted : ∀ n, c'.folder.target = some n →
      (c'.folder.data n, c'.stamp n) ∈ c'.placed)
    (hwhole : ∀ entry ∈ c'.placed, Listed cached c' entry)
    (hown : c'.Proper fetch') : Kept cached c' := by
  refine ⟨htidy, hpast, hnewer, hlisted, hwhole, ?_⟩
  intro fetch hin
  rw [hfetches] at hin
  rcases List.mem_or_eq_of_mem_set hin with hold | rfl
  · exact hevolves.proper (h.proper fetch hold)
  · exact hown

/-- A call has come further, and has left the files as they are. -/
structure Stays (c c' : Cache) : Prop where
  clock : c'.clock = c.clock
  folder : c'.folder = c.folder
  stamp : c'.stamp = c.stamp
  placed : c'.placed = c.placed
  served : ∀ content ∈ c.served, content ∈ c'.served

/-- A call that leaves the files as they are keeps everything: its own file at
most is closed, and only its new place has to be shown proper. -/
theorem Kept.stay (h : Kept cached c) {i : Nat} {fetch fetch' : Fetch}
    (hi : c.fetches[i]? = some fetch) (hstays : Stays c c')
    (hfetches : c'.fetches = c.fetches.set i fetch')
    (hwriter : fetch'.writer = .idle ∨ fetch'.writer = fetch.writer)
    (hown : Evolves c c' → c'.Proper fetch') : Kept cached c' := by
  have hcase := replacement_stay hi hstays.folder hfetches hwriter
  have hsealed : ∀ n, Replacement.Sealed c.replacement n →
      Replacement.Sealed c'.replacement n := by
    intro n hn
    rcases hcase with heq | heq
    · rwa [heq]
    · rw [heq]
      exact (Replacement.sealed_step hn _).1
  have hwriters : ∀ j file sent rest, c'.replacement.writers j =
      .writing file sent rest →
        c.replacement.writers j = .writing file sent rest := by
    intro j file sent rest hj
    rcases hcase with heq | heq
    · rwa [heq] at hj
    · rw [heq] at hj
      rcases eq_or_ne j i with rfl | hne
      · change Function.update _ j _ j = _ at hj
        rw [Function.update_self] at hj
        cases hj
      · change Function.update _ i _ j = _ at hj
        rwa [Function.update_of_ne hne] at hj
  have hevolves : Evolves c c' := by
    refine ⟨hstays.served, ?_, ?_, ?_⟩
    · intro entry hin
      rwa [hstays.placed]
    · intro n hn
      exact ⟨hsealed n hn, by rw [hstays.folder], by rw [hstays.stamp]⟩
    · intro n hn
      refine ⟨n, ?_, ?_⟩
      · rwa [hstays.folder]
      · rw [hstays.stamp]
  refine h.of_set hfetches hevolves ?_ ?_ ?_ ?_ ?_ (hown hevolves)
  · refine Replacement.Tidy.mono ?_ (fun _ => Whole.mono hstays.served)
    rcases hcase with heq | heq
    · rw [heq]
      exact h.tidy
    · rw [heq]
      exact h.tidy.drop i
  · intro n
    rw [hstays.stamp, hstays.clock]
    exact h.past n
  · intro j file sent rest hj n hn
    rw [hstays.folder] at hn
    rw [hstays.stamp]
    exact h.newer j file sent rest (hwriters j file sent rest hj) n hn
  · intro n hn
    rw [hstays.folder] at hn ⊢
    rw [hstays.stamp, hstays.placed]
    exact h.listed n hn
  · intro entry hin
    rw [hstays.placed] at hin
    exact (h.whole entry hin).mono hstays.served

/-- The state after a step of the library, with new times of writing for what
is not sealed. -/
theorem Kept.of_step (h : Kept cached c) {i : Nat} {fetch' : Fetch}
    (hfetches : c'.fetches = c.fetches.set i fetch')
    {a : Replacement.Action Nat UInt8}
    (hstep : c'.replacement = Replacement.step a c.replacement)
    (halone : Replacement.Alone a c.replacement)
    (hbegins : Replacement.Begins (Whole cached c) a)
    (hstamp : ∀ n, Replacement.Sealed c.replacement n →
      c'.stamp n = c.stamp n)
    (hserved : c'.served = c.served)
    (hplaced : ∀ entry ∈ c.placed, entry ∈ c'.placed)
    (htarget : ∀ n, c.folder.target = some n →
      ∃ n', c'.folder.target = some n' ∧ c.stamp n ≤ c'.stamp n')
    (hpast : ∀ n, c'.stamp n ≤ c'.clock)
    (hnewer : ∀ i file sent rest, c'.replacement.writers i =
      .writing file sent rest → ∀ n, c'.folder.target = some n →
        c'.stamp n ≤ c'.stamp file)
    (hlisted : ∀ n, c'.folder.target = some n →
      (c'.folder.data n, c'.stamp n) ∈ c'.placed)
    (hwhole : ∀ entry ∈ c'.placed, Listed cached c' entry)
    (hown : c'.Proper fetch') : Kept cached c' := by
  have hsame : ∀ content ∈ c.served, content ∈ c'.served := by
    intro content hin
    rwa [hserved]
  refine h.of_set hfetches ⟨hsame, hplaced, ?_, htarget⟩ ?_ hpast hnewer
    hlisted hwhole hown
  · intro n hn
    have hkept := Replacement.sealed_step hn a
    rw [← hstep] at hkept
    exact ⟨hkept.1, hkept.2, hstamp n hn⟩
  · rw [hstep]
    exact (Replacement.tidy_step h.tidy halone hbegins).mono
      (fun _ => Whole.mono hsame)

/-- The temporary file is opened, for the call alone. No file that can be read
is touched, since what has the name of the cache has another number, and what
is written next is dated no earlier than the cache. -/
theorem Kept.create (h : Kept cached c) {i : Nat} {content : String}
    (hi : c.fetches[i]? = some (.create content))
    (halone : ∀ j, c.replacement.writers j = .idle)
    (mode : Nat → Nat) :
    Kept cached { c.moveTo i
        (.write content c.folder.scratch [] (utf8 content)) with
      folder := c.folder.create
      stamp := Function.update c.stamp c.folder.scratch c.clock
      mode := mode } := by
  obtain ⟨hlt, -⟩ := List.getElem?_eq_some_iff.mp hi
  have hserved : content ∈ c.served :=
    h.proper _ (List.mem_of_getElem? hi)
  have hstamp : ∀ n, Replacement.Sealed c.replacement n →
      Function.update c.stamp c.folder.scratch c.clock n = c.stamp n :=
    fun n hn => Function.update_of_ne hn.ne_scratch.symm ..
  have hpast : ∀ n,
      Function.update c.stamp c.folder.scratch c.clock n ≤ c.clock := by
    intro n
    rcases eq_or_ne n c.folder.scratch with rfl | hne
    · rw [Function.update_self]
    · rw [Function.update_of_ne hne]
      exact h.past n
  refine h.of_step (a := .create i (utf8 content)) rfl ?_ halone
    (.inl ⟨content, hserved, rfl⟩) hstamp rfl (fun _ hin => hin) ?_ hpast ?_
    ?_ h.whole ⟨hserved, rfl⟩
  · exact replacement_create hi rfl rfl
  · intro n hn
    refine ⟨n, hn, Int.le_of_eq (hstamp n (h.tidy.sealed hn)).symm⟩
  · intro j file sent rest hj n hn
    rw [replacement_set hlt rfl] at hj
    rcases eq_or_ne j i with rfl | hne
    · change Function.update _ j _ j = _ at hj
      rw [Function.update_self] at hj
      cases hj
      change Function.update c.stamp _ _ n ≤ Function.update c.stamp _ _ _
      rw [Function.update_self]
      exact hpast n
    · change Function.update _ i _ j = _ at hj
      rw [Function.update_of_ne hne, halone j] at hj
      cases hj
  · intro n hn
    have hdata := (Replacement.sealed_step (h.tidy.sealed hn)
      (.create i (utf8 content))).2
    rw [Replacement.step_create (halone i)] at hdata
    change (c.folder.create.data n, Function.update c.stamp _ _ n) ∈ c.placed
    rw [hstamp n (h.tidy.sealed hn)]
    change c.folder.create.data n = c.folder.data n at hdata
    rw [hdata]
    exact h.listed n hn

/-- A piece of the text is written. It goes to the end of the file that the
call has open, which nobody reads, and the file is dated anew. -/
theorem Kept.put (h : Kept cached c) {i file k : Nat} {content : String}
    {sent rest : List UInt8}
    (hi : c.fetches[i]? = some (.write content file sent rest)) :
    Kept cached { c.moveTo i
        (.write content file (sent ++ rest.take k) (rest.drop k)) with
      folder := c.folder.put file sent.length (rest.take k)
      stamp := Function.update c.stamp file c.clock } := by
  obtain ⟨hlt, -⟩ := List.getElem?_eq_some_iff.mp hi
  obtain ⟨hserved, hall⟩ := h.proper _ (List.mem_of_getElem? hi)
  have hwriter : c.replacement.writers i = .writing file sent rest :=
    Replacement.writersOf_of hi
  have hstamp : ∀ n, Replacement.Sealed c.replacement n →
      Function.update c.stamp file c.clock n = c.stamp n :=
    fun n hn =>
      Function.update_of_ne (hn.closed i file sent rest hwriter).symm ..
  have hpast : ∀ n, Function.update c.stamp file c.clock n ≤ c.clock := by
    intro n
    rcases eq_or_ne n file with rfl | hne
    · rw [Function.update_self]
    · rw [Function.update_of_ne hne]
      exact h.past n
  have hstep := Replacement.step_put hwriter k
  refine h.of_step (a := .put i k) rfl ?_ True.intro True.intro hstamp rfl
    (fun _ hin => hin) ?_ hpast ?_ ?_ h.whole ⟨hserved, ?_⟩
  · exact replacement_put hi rfl rfl
  · intro n hn
    exact ⟨n, hn, Int.le_of_eq (hstamp n (h.tidy.sealed hn)).symm⟩
  · intro j file' sent' rest' hj n hn
    rw [replacement_set hlt rfl] at hj
    rcases eq_or_ne j i with rfl | hne
    · change Function.update _ j _ j = _ at hj
      rw [Function.update_self] at hj
      cases hj
      change Function.update c.stamp _ _ n ≤ Function.update c.stamp _ _ _
      rw [Function.update_self]
      exact hpast n
    · change Function.update _ i _ j = _ at hj
      rw [Function.update_of_ne hne, h.tidy.others_idle ?_ hne] at hj
      · cases hj
      · rw [hwriter]
        exact nofun
  · intro n hn
    have hdata := (Replacement.sealed_step (h.tidy.sealed hn) (.put i k)).2
    rw [hstep] at hdata
    change (c.folder.put file sent.length (rest.take k)).data n =
      c.folder.data n at hdata
    change (_, Function.update c.stamp _ _ n) ∈ c.placed
    rw [hstamp n (h.tidy.sealed hn), hdata]
    exact h.listed n hn
  · rw [List.append_assoc, List.take_append_drop]
    exact hall

/-- The temporary file takes the name of the cache. What it holds by then is
the whole text that the server has sent, so a reader that opens it next reads
that text from beginning to end. -/
theorem Kept.rename (h : Kept cached c) {i file n : Nat} {content : String}
    {sent : List UInt8}
    (hi : c.fetches[i]? = some (.rename content file sent))
    (htmp : c.folder.tmp = some n) :
    Kept cached { c.moveTo i (.done content .server) with
      folder := { c.folder with tmp := none, target := some n }
      placed := (c.folder.data n, c.stamp n) :: c.placed } := by
  obtain ⟨hlt, -⟩ := List.getElem?_eq_some_iff.mp hi
  obtain ⟨hserved, hall⟩ := h.proper _ (List.mem_of_getElem? hi)
  have hwriter : c.replacement.writers i = .writing file sent [] :=
    Replacement.writersOf_of hi
  obtain ⟨hfile, hdata, -⟩ := h.tidy.writing i file sent [] hwriter
  cases htmp.symm.trans hfile
  refine h.of_step (a := .rename i) rfl ?_ True.intro True.intro
    (fun _ _ => rfl) rfl (fun _ hin => List.mem_cons_of_mem _ hin) ?_ h.past
    ?_ ?_ ?_ hserved
  · exact replacement_rename hi htmp rfl rfl
  · intro m hm
    exact ⟨file, rfl, h.newer i file sent [] hwriter m hm⟩
  · intro j file' sent' rest' hj
    rw [replacement_set hlt rfl] at hj
    rcases eq_or_ne j i with rfl | hne
    · change Function.update _ j _ j = _ at hj
      rw [Function.update_self] at hj
      cases hj
    · change Function.update _ i _ j = _ at hj
      rw [Function.update_of_ne hne, h.tidy.others_idle ?_ hne] at hj
      · cases hj
      · rw [hwriter]
        exact nofun
  · intro m hm
    cases hm
    exact List.mem_cons_self
  · intro entry hin
    rcases List.mem_cons.mp hin with rfl | hin
    · exact .inl ⟨content, hserved, (hdata.trans hall :)⟩
    · exact h.whole entry hin

/-- To move a call on leaves everything else as it is. -/
theorem Stays.moveTo (c : Cache) (i : Nat) (fetch : Fetch) :
    Stays c (c.moveTo i fetch) :=
  ⟨rfl, rfl, rfl, rfl, fun _ hin => hin⟩

/-- A call that does not get the cache written goes on with its text. -/
theorem Kept.giveUp (h : Kept cached c) {i : Nat} {fetch : Fetch}
    (hi : c.fetches[i]? = some fetch) {content : String}
    (hserved : content ∈ c.served) (e : String) :
    Kept cached (c.giveUp i content e) :=
  h.stay hi ⟨rfl, rfl, rfl, rfl, fun _ hin => hin⟩ rfl (.inl rfl)
    (fun _ => hserved)

/-- **A step of a call.** Where it goes on to depends on the file system and on
the server; in each case what is true of the call at its new place follows from
what was true at the old one. -/
theorem Kept.advance (h : Kept cached c) {i : Nat} {a : Answers}
    {fetch : Fetch} (hi : c.fetches[i]? = some fetch)
    (hserial : c.Serial (.advance i a)) (umask : Nat → Nat) :
    Kept cached (c.advance umask i a fetch) := by
  have hproper := h.proper fetch (List.mem_of_getElem? hi)
  have hmove : ∀ fetch' : Fetch, fetch'.writer = .idle →
      c.Proper fetch' → Kept cached (c.moveTo i fetch') :=
    fun fetch' hidle hown => h.stay hi (.moveTo c i fetch') rfl (.inl hidle)
      (fun hevolves => hevolves.proper hown)
  cases fetch with
  | look =>
      simp only [Cache.advance]
      split
      · exact hmove .request rfl True.intro
      · rename_i n hn
        split
        · rename_i hfresh
          rw [Bool.and_eq_true] at hfresh
          exact hmove (.opening c.clock) rfl ⟨n, hn, lt_of_fresh hfresh.2⟩
        · exact hmove .request rfl True.intro
  | opening looked =>
      simp only [Cache.advance]
      split
      · exact hmove (.failed _) rfl True.intro
      · exact hmove (.failed _) rfl True.intro
      · rename_i n _ hn
        obtain ⟨n', hn', hfresh⟩ := hproper
        cases hn.symm.trans hn'
        exact hmove (.read looked n []) rfl
          ⟨h.tidy.sealed hn, List.nil_prefix, h.listed n hn, hfresh⟩
  | read looked n got =>
      obtain ⟨hsealed, ⟨rest, hrest⟩, hplaced, hfresh⟩ := hproper
      have hdrop : (c.folder.data n).drop got.length = rest := by
        rw [← hrest, List.drop_left]
      simp only [Cache.advance, hdrop]
      split
      · exact hmove (.failed _) rfl True.intro
      · rw [List.append_nil] at hrest
        cases htext : fromUtf8 got with
        | error e => exact hmove (.failed e) rfl True.intro
        | ok content =>
            refine hmove (.done content (.cache looked)) rfl
              ⟨got, c.stamp n, ?_, htext, hfresh⟩
            rwa [hrest]
      · refine hmove (.read looked n _) rfl ⟨hsealed, ?_, hplaced, hfresh⟩
        rw [← hrest]
        exact (List.prefix_append_right_inj got).mpr (List.take_prefix _ _)
  | request =>
      simp only [Cache.advance]
      split
      · refine h.stay hi ⟨rfl, rfl, rfl, rfl, ?_⟩ rfl (.inl rfl) ?_
        · exact fun _ hin => List.mem_cons_of_mem _ hin
        · exact fun _ => List.mem_cons_self
      · exact hmove (.failed _) rfl True.intro
      · exact hmove (.failed _) rfl True.intro
      · exact hmove (.failed _) rfl True.intro
  | createDir content =>
      simp only [Cache.advance]
      split
      · exact h.giveUp hi hproper _
      · exact h.stay hi ⟨rfl, rfl, rfl, rfl, fun _ hin => hin⟩ rfl (.inl rfl)
          (fun _ => hproper)
  | restrictDir content =>
      simp only [Cache.advance]
      split
      · exact h.giveUp hi hproper _
      · exact h.stay hi ⟨rfl, rfl, rfl, rfl, fun _ hin => hin⟩ rfl (.inl rfl)
          (fun _ => hproper)
  | create content =>
      simp only [Cache.advance]
      split
      · exact h.giveUp hi hproper _
      · exact h.create hi (alone_of_serial hi hserial) _
  | write content file sent rest =>
      simp only [Cache.advance]
      split
      · exact h.giveUp hi hproper.1 _
      · obtain ⟨hserved, hall⟩ := hproper
        rw [List.append_nil] at hall
        exact h.stay hi (.moveTo c i _) rfl (.inr rfl)
          (fun _ => ⟨hserved, hall⟩)
      · exact h.put hi
  | restrict content file sent =>
      simp only [Cache.advance]
      split
      · exact h.giveUp hi hproper.1 _
      · exact h.giveUp hi hproper.1 _
      · exact h.stay hi ⟨rfl, rfl, rfl, rfl, fun _ hin => hin⟩ rfl (.inr rfl)
          (fun _ => hproper)
  | rename content file sent =>
      simp only [Cache.advance]
      split
      · exact h.giveUp hi hproper.1 _
      · exact h.giveUp hi hproper.1 _
      · exact h.rename hi ‹_›
  | done content origin => exact h
  | failed e => exact h
  | killed => exact h

/-- **Every step keeps it**, if the temporary file is opened by one call at a
time. -/
theorem Kept.step (h : Kept cached c) {umask : Nat → Nat}
    {action : CacheAction} (hserial : c.Serial action) :
    Kept cached (c.step umask action) := by
  cases action with
  | tick nanos =>
      refine ⟨h.tidy, ?_, h.newer, h.listed, h.whole, h.proper⟩
      intro n
      have hle := h.past n
      change c.stamp n ≤ c.clock + (nanos : Int)
      exact Int.le_trans hle
        (Int.le_add_of_nonneg_right (Int.natCast_nonneg nanos))
  | fetch =>
      have hsame : (c.step umask .fetch).replacement = c.replacement := by
        unfold replacement Cache.step
        dsimp only
        rw [Replacement.writersOf_concat rfl]
      have hevolves : Evolves c (c.step umask .fetch) := by
        refine ⟨fun _ hin => hin, fun _ hin => hin, ?_, ?_⟩
        · intro n hn
          rw [hsame]
          exact ⟨hn, rfl, rfl⟩
        · exact fun n hn => ⟨n, hn, Int.le_refl _⟩
      refine ⟨?_, h.past, ?_, h.listed, h.whole, ?_⟩
      · rw [hsame]
        exact h.tidy
      · rw [hsame]
        exact h.newer
      · intro fetch hin
        rcases List.mem_append.mp hin with hold | hnew
        · exact hevolves.proper (h.proper fetch hold)
        · rw [List.mem_singleton.mp hnew]
          exact True.intro
  | advance i a =>
      unfold Cache.step
      dsimp only
      split
      · exact h
      · exact h.advance ‹_› hserial umask
  | kill i =>
      cases hi : c.fetches[i]? with
      | none =>
          have hlen := List.getElem?_eq_none_iff.mp hi
          have hsame : c.step umask (.kill i) = c := by
            unfold Cache.step moveTo
            dsimp only
            rw [List.set_eq_of_length_le hlen]
          rwa [hsame]
      | some fetch =>
          exact h.stay hi (.moveTo c i .killed) rfl (.inl rfl)
            (fun _ => True.intro)

/-- The old cache and the old temporary file are two files, and nobody has one
open. -/
theorem initial_tidy (clock : SystemTime) (dirMode : Option Nat)
    (cached : Option (List UInt8 × SystemTime))
    (leftover : Option (List UInt8)) (mode : Nat → Nat) :
    Replacement.Tidy (fun text => cached.map Prod.fst = some text)
      (initial clock dirMode cached leftover mode).replacement := by
  have hbounded : ∀ n, leftover.map (fun _ => 1) = some n ∨
      cached.map (fun _ => 0) = some n → n < 2 := by
    rintro n (h | h)
    · cases leftover with
      | none => cases h
      | some bytes =>
          cases h
          exact Nat.lt_succ_self 1
    · cases cached with
      | none => cases h
      | some entry =>
          cases h
          exact Nat.zero_lt_succ 1
  refine ⟨hbounded, ?_, ?_, ?_, nofun⟩
  · intro n htmp htarget
    cases cached with
    | none => cases htarget
    | some entry =>
        cases htarget
        cases leftover with
        | none => cases htmp
        | some bytes => cases htmp
  · intro text htext
    cases cached with
    | none => cases htext
    | some entry =>
        cases htext
        rfl
  · intro i j hi
    exact absurd rfl hi

/-- Before the first call there is at most the old cache, and nobody writes. -/
theorem Kept.initial {clock : SystemTime} (dirMode : Option Nat)
    (hpast : ∀ entry, cached = some entry → entry.2 ≤ clock)
    (leftover : Option (List UInt8)) (mode : Nat → Nat) :
    Kept cached (.initial clock dirMode cached leftover mode) := by
  have htidy : Replacement.Tidy
      (Whole cached (.initial clock dirMode cached leftover mode))
      (Cache.initial clock dirMode cached leftover mode).replacement :=
    (initial_tidy clock dirMode cached leftover mode).mono
      (fun _ htext => .inr htext)
  cases cached with
  | none =>
      exact ⟨htidy, fun _ => Int.le_refl _, nofun, nofun, nofun, nofun⟩
  | some entry =>
      refine ⟨htidy, fun _ => hpast entry rfl, nofun, ?_, ?_, nofun⟩
      · rintro n ⟨⟩
        exact List.mem_singleton_self _
      · intro entry' hin
        rw [List.mem_singleton.mp hin]
        exact .inr rfl

end Cache

/-- **What comes out of the cache is whole and fresh.**  However the calls
interleave, whatever fails and whichever call is killed, as long as the
temporary file is opened by one call at a time: the text a call ends with is
one that the server has sent, or was in the cache from the beginning; and if it
was read from the cache, it was written less than a day before the look. -/
theorem fetched_whole (umask : Nat → Nat) (clock : SystemTime)
    (dirMode : Option Nat) (cached : Option (List UInt8 × SystemTime))
    (hpast : ∀ entry, cached = some entry → entry.2 ≤ clock)
    (leftover : Option (List UInt8)) (mode : Nat → Nat)
    (actions : List CacheAction)
    (hserial : Runs.Meets (Cache.step umask) (fun a c => c.Serial a)
      (.initial clock dirMode cached leftover mode) actions) :
    let c := Runs.run (Cache.step umask)
      (.initial clock dirMode cached leftover mode) actions
    ∀ content origin, .done content origin ∈ c.fetches →
      match origin with
      | .server => content ∈ c.served
      | .cache looked => ∃ bytes written, (bytes, written) ∈ c.placed ∧
          fromUtf8 bytes = .ok content ∧ looked - cacheTtl < written ∧
          (content ∈ c.served ∨ cached = some (bytes, written)) := by
  intro c content origin hin
  have hkept : c.Kept cached :=
    Runs.run_invariant (fun c => c.Kept cached)
      (fun action c hok hc => hc.step hok) actions _ hserial
      (.initial dirMode hpast leftover mode)
  have hproper := hkept.proper _ hin
  cases origin with
  | server => exact hproper
  | cache looked =>
      obtain ⟨bytes, written, hplaced, htext, hfresh⟩ := hproper
      refine ⟨bytes, written, hplaced, htext, hfresh, ?_⟩
      rcases hkept.whole _ hplaced with ⟨sent, hserved, heq⟩ | hcached
      · left
        dsimp only at heq
        rw [heq, fromUtf8_utf8] at htext
        cases htext
        exact hserved
      · exact .inr hcached

/-! ## Out of the reach of others -/

/-- The call writes, or is about to write, the cache. -/
def Fetch.inside : Fetch → Bool
  | .create _ => true
  | fetch => fetch.writes

namespace Cache

variable {c c' : Cache} {cached : Option (List UInt8 × SystemTime)}

/-- At most one call has the temporary file open, and the cache is another
file, whatever is written in them. -/
def InOrder (c : Cache) : Prop :=
  Replacement.Tidy (fun _ => True) c.replacement

/-- The library's rule: a step that opens the temporary file only while nobody
has it open keeps the two files apart. -/
theorem InOrder.step (h : c.InOrder) {umask : Nat → Nat}
    {action : CacheAction} (hserial : c.Serial action) :
    (c.step umask action).InOrder := by
  rcases step_follows umask action with hsame | ⟨a, hstep, halone⟩
  · unfold InOrder
    rw [hsame]
    exact h
  · have hbegins : Replacement.Begins (fun _ => True) a := by
      cases a <;> exact True.intro
    unfold InOrder
    rw [hstep]
    exact Replacement.tidy_step h (halone hserial) hbegins

/-- Nobody but the owner can get at what a call writes: the directory is
closed to others before the temporary file is opened, and the file itself
before it is renamed.  The old cache has the number 0. -/
structure Private (cached : Option (List UInt8 × SystemTime)) (c : Cache) :
    Prop where
  inside : ∀ fetch ∈ c.fetches, fetch.inside = true → c.dirMode = some 0o700
  target : c.folder.target = cached.map (fun _ => 0) ∨
    (c.dirMode = some 0o700 ∧
      ∃ n, c.folder.target = some n ∧ c.mode n = 0o600)
  renames : ∀ content file sent, .rename content file sent ∈ c.fetches →
    c.mode file = 0o600

/-- One call has come further.  What is closed to others has to stay closed,
and a new file under the name of the cache has to be closed when it gets there.
-/
theorem Private.of_set (h : Private cached c) {i : Nat} {fetch' : Fetch}
    (hfetches : c'.fetches = c.fetches.set i fetch')
    (hdir : c.dirMode = some 0o700 → c'.dirMode = some 0o700)
    (hmode : ∀ n, c.folder.target = some n ∨
      (∃ content sent, .rename content n sent ∈ c.fetches) →
        c.mode n = 0o600 → c'.mode n = 0o600)
    (htarget : c'.folder.target = c.folder.target ∨
      (c'.dirMode = some 0o700 ∧
        ∃ n, c'.folder.target = some n ∧ c'.mode n = 0o600))
    (hinside : fetch'.inside = true → c'.dirMode = some 0o700)
    (hrenames : ∀ content file sent, fetch' = .rename content file sent →
      c'.mode file = 0o600) : Private cached c' := by
  refine ⟨?_, ?_, ?_⟩
  · intro fetch hin hfetch
    rw [hfetches] at hin
    rcases List.mem_or_eq_of_mem_set hin with hold | rfl
    · exact hdir (h.inside fetch hold hfetch)
    · exact hinside hfetch
  · rcases htarget with hsame | hnew
    · rw [hsame]
      refine h.target.imp_right ?_
      rintro ⟨hclosed, n, hn, hrestricted⟩
      exact ⟨hdir hclosed, n, hn, hmode n (.inl hn) hrestricted⟩
    · exact .inr hnew
  · intro content file sent hin
    rw [hfetches] at hin
    rcases List.mem_or_eq_of_mem_set hin with hold | heq
    · exact hmode file (.inr ⟨content, sent, hold⟩)
        (h.renames content file sent hold)
    · exact hrenames content file sent heq.symm

/-- A call has come further, and has left modes and names as they are. -/
theorem Private.stay (h : Private cached c) {i : Nat} {fetch' : Fetch}
    (hfetches : c'.fetches = c.fetches.set i fetch')
    (hdir : c.dirMode = some 0o700 → c'.dirMode = some 0o700)
    (hmode : c'.mode = c.mode)
    (htarget : c'.folder.target = c.folder.target)
    (hinside : fetch'.inside = true → c'.dirMode = some 0o700)
    (hrenames : ∀ content file sent, fetch' ≠ .rename content file sent) :
    Private cached c' :=
  h.of_set hfetches hdir (fun n _ hn => by rwa [hmode])
    (.inl htarget) hinside
    (fun content file sent heq => absurd heq (hrenames content file sent))

/-- **A step of a call** keeps the cache out of the reach of others. The
directory is closed by the step before the file is opened, and the file by the
step before it is renamed; a failure of either gives the cache up. -/
theorem Private.advance (h : Private cached c) (htidy : c.InOrder)
    {i : Nat} {a : Answers} {fetch : Fetch}
    (hi : c.fetches[i]? = some fetch)
    (hserial : c.Serial (.advance i a)) (umask : Nat → Nat) :
    Private cached (c.advance umask i a fetch) := by
  have hin := List.mem_of_getElem? hi
  have hquiet : ∀ fetch' : Fetch, fetch'.inside = false →
      (∀ content file sent, fetch' ≠ .rename content file sent) →
        Private cached (c.moveTo i fetch') := by
    intro fetch' hout hne
    refine h.stay rfl id rfl rfl ?_ hne
    rw [hout]
    exact nofun
  have hgive : ∀ content e, Private cached (c.giveUp i content e) :=
    fun content e => h.stay rfl id rfl rfl nofun nofun
  cases fetch with
  | look =>
      simp only [Cache.advance]
      split
      · exact hquiet _ rfl nofun
      · split
        · exact hquiet _ rfl nofun
        · exact hquiet _ rfl nofun
  | opening looked =>
      simp only [Cache.advance]
      split <;> exact hquiet _ rfl nofun
  | read looked n got =>
      simp only [Cache.advance]
      split
      · exact hquiet _ rfl nofun
      · cases fromUtf8 got with
        | error e => exact hquiet _ rfl nofun
        | ok content => exact hquiet _ rfl nofun
      · exact hquiet _ rfl nofun
  | request =>
      simp only [Cache.advance]
      split
      · exact h.stay rfl id rfl rfl nofun nofun
      · exact hquiet _ rfl nofun
      · exact hquiet _ rfl nofun
      · exact hquiet _ rfl nofun
  | createDir content =>
      simp only [Cache.advance]
      split
      · exact hgive _ _
      · refine h.stay rfl ?_ rfl rfl nofun nofun
        intro hdir
        simp only [hdir, Option.getD_some]
  | restrictDir content =>
      simp only [Cache.advance]
      split
      · exact hgive _ _
      · exact h.stay rfl (fun _ => rfl) rfl rfl (fun _ => rfl) nofun
  | create content =>
      have hdir := h.inside _ hin rfl
      simp only [Cache.advance]
      split
      · exact hgive _ _
      · refine h.of_set rfl id ?_ (.inl rfl) (fun _ => hdir) nofun
        intro n hn hmode
        dsimp only
        split
        · -- a new file: the target is another, and nobody is renaming
          rw [Function.update_of_ne]
          · exact hmode
          · rintro rfl
            rcases hn with htarget | ⟨_, sent, hrename⟩
            · exact (htidy.sealed htarget).ne_scratch rfl
            · simp only [Cache.Serial, hi] at hserial
              cases hserial _ hrename
        · exact hmode
  | write content file sent rest =>
      have hdir := h.inside _ hin rfl
      simp only [Cache.advance]
      split
      · exact hgive _ _
      · exact h.stay rfl id rfl rfl (fun _ => hdir) nofun
      · exact h.stay rfl id rfl rfl (fun _ => hdir) nofun
  | restrict content file sent =>
      have hdir := h.inside _ hin rfl
      simp only [Cache.advance]
      split
      · exact hgive _ _
      · exact hgive _ _
      · rename_i n _ htmp
        have hwriter : c.replacement.writers i = .writing file sent [] :=
          Replacement.writersOf_of hi
        cases htmp.symm.trans (htidy.writing i file sent [] hwriter).1
        refine h.of_set rfl id ?_ (.inl rfl) (fun _ => hdir) ?_
        · intro m _ hmode
          dsimp only
          rcases eq_or_ne m file with rfl | hne
          · rw [Function.update_self]
          · rw [Function.update_of_ne hne]
            exact hmode
        · rintro _ _ _ ⟨⟩
          exact Function.update_self ..
  | rename content file sent =>
      have hdir := h.inside _ hin rfl
      simp only [Cache.advance]
      split
      · exact hgive _ _
      · exact hgive _ _
      · rename_i n _ htmp
        have hwriter : c.replacement.writers i = .writing file sent [] :=
          Replacement.writersOf_of hi
        cases htmp.symm.trans (htidy.writing i file sent [] hwriter).1
        exact h.of_set rfl id (fun _ _ hmode => hmode)
          (.inr ⟨hdir, file, rfl, h.renames content file sent hin⟩) nofun nofun
  | done content origin => exact h
  | failed e => exact h
  | killed => exact h

/-- Every step of the system keeps the cache out of the reach of others. -/
theorem Private.step (h : Private cached c) (htidy : c.InOrder)
    {umask : Nat → Nat} {action : CacheAction}
    (hserial : c.Serial action) : Private cached (c.step umask action) := by
  cases action with
  | tick nanos => exact ⟨h.inside, h.target, h.renames⟩
  | fetch =>
      refine ⟨?_, h.target, ?_⟩
      · intro fetch hin hfetch
        rcases List.mem_append.mp hin with hold | hnew
        · exact h.inside fetch hold hfetch
        · rw [List.mem_singleton.mp hnew] at hfetch
          cases hfetch
      · intro content file sent hin
        rcases List.mem_append.mp hin with hold | hnew
        · exact h.renames content file sent hold
        · cases List.mem_singleton.mp hnew
  | advance i a =>
      unfold Cache.step
      dsimp only
      split
      · exact h
      · exact h.advance htidy ‹_› hserial umask
  | kill i => exact h.stay rfl id rfl rfl nofun nofun

end Cache

/-- **The cache is private.**  In the same runs: while a call writes the cache,
and ever since the name of the cache leads to another file than at first, only
the owner can enter the directory; and that file only its owner can read or
write. -/
theorem cache_private (umask : Nat → Nat) (clock : SystemTime)
    (dirMode : Option Nat) (cached : Option (List UInt8 × SystemTime))
    (leftover : Option (List UInt8)) (mode : Nat → Nat)
    (actions : List CacheAction)
    (hserial : Runs.Meets (Cache.step umask) (fun a c => c.Serial a)
      (.initial clock dirMode cached leftover mode) actions) :
    let c₀ := Cache.initial clock dirMode cached leftover mode
    let c := Runs.run (Cache.step umask) c₀ actions
    ((∃ fetch ∈ c.fetches, fetch.inside = true) → c.dirMode = some 0o700) ∧
      (c.folder.target ≠ c₀.folder.target → c.dirMode = some 0o700 ∧
        ∃ n, c.folder.target = some n ∧ c.mode n = 0o600) := by
  intro c₀ c
  have hinitial : c₀.Private cached := ⟨nofun, .inl rfl, nofun⟩
  have htidy : c₀.InOrder :=
    (Cache.initial_tidy clock dirMode cached leftover mode).mono
      (fun _ _ => True.intro)
  have hboth : c.InOrder ∧ c.Private cached :=
    Runs.run_invariant (fun c => c.InOrder ∧ c.Private cached)
      (fun action c hok hc => ⟨hc.1.step hok, hc.2.step hc.1 hok⟩) actions _
      hserial ⟨htidy, hinitial⟩
  refine ⟨?_, ?_⟩
  · rintro ⟨fetch, hin, hfetch⟩
    exact hboth.2.inside fetch hin hfetch
  · exact fun hne => hboth.2.target.resolve_left hne

/-! ## A catalog fetched, and used an hour later -/

/-- A world in which nothing goes wrong, and files are read and written eight
bytes at a time. -/
def Answers.fine : Answers := ⟨true, .body "[dbus]\n", .ok (), 7⟩

/-- The first call is killed while it writes, the second fetches the catalog,
and the third comes an hour later. -/
def laterFetch : List CacheAction :=
  .fetch :: List.replicate 5 (.advance 0 .fine) ++ .kill 0 ::
    .fetch :: List.replicate 9 (.advance 1 .fine) ++
      .tick 3600000000000 :: .fetch :: List.replicate 4 (.advance 2 .fine)

/-- What becomes of a machine without a cache. -/
def cacheAfter (actions : List CacheAction) : Cache :=
  Runs.run (Cache.step id) (.initial 0 none none none fun _ => 0o644) actions

/-- The third call reads what the second one has written an hour before. -/
theorem fetched_whole_later :
    let c := cacheAfter laterFetch
    .done "[dbus]\n" (.cache 3600000000000) ∈ c.fetches ∧
      ∃ bytes written, (bytes, written) ∈ c.placed ∧
        fromUtf8 bytes = .ok "[dbus]\n" ∧
          3600000000000 - cacheTtl < written ∧
            ("[dbus]\n" ∈ c.served ∨ none = some (bytes, written)) := by
  intro c
  have hread : .done "[dbus]\n" (.cache 3600000000000) ∈ c.fetches := by
    decide +kernel
  exact ⟨hread, fetched_whole id 0 none none nofun none _ laterFetch
    (by decide +kernel) _ _ hread⟩

/-- When the second call is done, the directory and the file are its owner's
alone. -/
theorem cache_private_later :
    let c := cacheAfter laterFetch
    c.dirMode = some 0o700 ∧
      ∃ n, c.folder.target = some n ∧ c.mode n = 0o600 := by
  intro c
  exact (cache_private id 0 none none none _ laterFetch
    (by decide +kernel)).2 (by decide +kernel)

end FlintInit.Get

/-!
# Strings and paths as the standard library reads them

The string and path functions of the Rust standard library that flint-init
calls, over the characters of a string.  White space is Unicode's
`White_Space`, a line ends at a newline, a path is split at `/`, and a path's
components drop empty and `.` segments as `Path::components` does.
-/

namespace FlintInit

/-- `str::starts_with` for a string pattern. -/
def startsWith (s pre : String) : Bool :=
  pre.toList.isPrefixOf s.toList

/-- `str::ends_with` for a string pattern. -/
def endsWith (s post : String) : Bool :=
  post.toList.reverse.isPrefixOf s.toList.reverse

/-- `char::is_whitespace`. -/
def isWhitespace (c : Char) : Bool :=
  let n := c.toNat
  (9 ≤ n && n ≤ 13) || n == 0x20 || n == 0x85 || n == 0xA0 || n == 0x1680 ||
    (0x2000 ≤ n && n ≤ 0x200A) || n == 0x2028 || n == 0x2029 || n == 0x202F ||
    n == 0x205F || n == 0x3000

/-- `str::strip_prefix` for a string pattern. -/
def stripPrefix (s pre : String) : Option String :=
  if startsWith s pre then
    some (String.ofList (s.toList.drop pre.toList.length))
  else none

/-- `str::split_whitespace`, collected. -/
def splitWhitespace (s : String) : List String :=
  ((s.toList.splitOnP isWhitespace).filter (· ≠ [])).map String.ofList

/-- `str::trim`. -/
def trim (s : String) : String :=
  String.ofList (((s.toList.dropWhile isWhitespace).reverse.dropWhile
    isWhitespace).reverse)

/-- `str::trim_end_matches` for the NUL character. -/
def trimEndNul (s : String) : String :=
  String.ofList ((s.toList.reverse.dropWhile (· == '\x00')).reverse)

/-- `str::trim_start`. -/
def trimStart (s : String) : String :=
  String.ofList (s.toList.dropWhile isWhitespace)

/-- `str::split` at a character, collected. -/
def split (s : String) (c : Char) : List String :=
  (s.toList.splitOn c).map String.ofList

/-- Whether `pat` begins at some position of a text. -/
def occursIn (pat : List Char) : List Char → Bool
  | [] => pat.isPrefixOf []
  | c :: cs => pat.isPrefixOf (c :: cs) || occursIn pat cs

/-- `str::contains` for a string pattern. -/
def contains (s pat : String) : Bool := occursIn pat.toList s.toList

/-- The lines among the pieces between newlines.  A carriage return before a
newline is part of the line ending, and nothing behind the last newline is no
line. -/
def linePieces : List (List Char) → List (List Char)
  | [] => []
  | [last] => if last = [] then [] else [last]
  | piece :: rest =>
      (if piece.getLast? = some '\r' then piece.dropLast else piece) ::
        linePieces rest

/-- `str::lines`, collected. -/
def lines (s : String) : List String :=
  (linePieces (s.toList.splitOn '\n')).map String.ofList

/-- A string literal as `Debug` prints it; characters beyond ASCII are taken
to be printable. -/
def debugStr (s : String) : String :=
  let escape (c : Char) : List Char :=
    if c = '"' then ['\\', '"']
    else if c = '\\' then ['\\', '\\']
    else if c = '\n' then ['\\', 'n']
    else if c = '\r' then ['\\', 'r']
    else if c = '\t' then ['\\', 't']
    else if c = '\x00' then ['\\', '0']
    else if c.toNat < 32 ∨ c.toNat = 127 then
      '\\' :: 'u' :: '\x7b' :: Nat.toDigits 16 c.toNat ++ ['\x7d']
    else [c]
  String.ofList ('"' :: s.toList.flatMap escape ++ ['"'])

/-- A component of a path, without the prefixes only Windows has. -/
inductive Component where
  | rootDir
  | curDir
  | parentDir
  | normal (name : String)
  deriving DecidableEq

/-- `Path::is_absolute`. -/
def isAbsolute (path : String) : Bool := startsWith path "/"

/-- The component a segment between two slashes stands for: none when it is
empty or `.`. -/
def segmentComponent (segment : List Char) : Option Component :=
  if segment = [] ∨ segment = ['.'] then none
  else if segment = ['.', '.'] then some .parentDir
  else some (.normal (String.ofList segment))

/-- `Path::components`.  Only a leading `.` of a relative path is kept. -/
def components (path : String) : List Component :=
  let segments := path.toList.splitOn '/'
  let body := segments.filterMap segmentComponent
  if isAbsolute path then .rootDir :: body
  else if segments.head? = some ['.'] then .curDir :: body
  else body

/-- A path spelled from its components. -/
def spell : List Component → String
  | .rootDir :: rest => "/" ++ "/".intercalate (rest.map spellOne)
  | cs => "/".intercalate (cs.map spellOne)
where
  spellOne : Component → String
    | .rootDir => ""
    | .curDir => "."
    | .parentDir => ".."
    | .normal name => name

/-- `Path::parent`; none for the root and for the empty path. -/
def parent (path : String) : Option String :=
  match (components path).reverse with
  | [] => none
  | .rootDir :: _ => none
  | _ :: rest => some (spell rest.reverse)

/-- `Path::join` with a file name appended to a directory.  An absolute second
path replaces the first. -/
def join (dir file : String) : String :=
  if isAbsolute file then file
  else if endsWith dir "/" || dir == "" then dir ++ file
  else dir ++ "/" ++ file

/-- `Path::extension` of a file name: what follows the last dot, unless that
dot is the first character. -/
def extension (filename : String) : Option String :=
  let afterDot := filename.toList.reverse.takeWhile (· ≠ '.')
  let stem := filename.toList.reverse.drop (afterDot.length + 1)
  if afterDot.length = filename.toList.length ∨ stem = [] ∨ filename = ".." then
    none
  else some (String.ofList afterDot.reverse)

/-- `Path::with_extension` for a path that ends in a file name. -/
def withExtension (path ext : String) : String :=
  let dir := (path.toList.reverse.dropWhile (· ≠ '/')).reverse
  let name := String.ofList
    (path.toList.reverse.takeWhile (· ≠ '/')).reverse
  let stem :=
    match extension name with
    | none => name.toList
    | some old => name.toList.take
        (name.toList.length - old.toList.length - 1)
  String.ofList (dir ++ stem ++ '.' :: ext.toList)

example : components "/run//x/./../y" =
    [.rootDir, .normal "run", .normal "x", .parentDir, .normal "y"] := by
  decide

example : lines "a\r\n\nb\r" = ["a", "", "b\r"] ∧ lines "a\n" = ["a"] := by
  decide

example : extension "sshd.toml" = some "toml" ∧ extension ".toml" = none ∧
    extension "sshd" = none := by decide

example : parent "/run/db.pid" = some "/run" ∧ parent "/x" = some "/" ∧
    parent "x" = some "" ∧ parent "/" = none := by decide

example : withExtension "/etc/flint/services/services.bin" "tmp" =
    "/etc/flint/services/services.tmp" := by decide

end FlintInit

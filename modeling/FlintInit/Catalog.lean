import FlintInit.Service
import FlintInit.Library.Collections

/-!
# The service catalog

`catalog.rs`: the catalog names the services there are and the distros each is
for, a definition is fetched under the name of its service, and the
dependencies without a file in the services directory are missing.  The
network is a function from addresses to responses: what is published does not
change during one call.
-/

namespace FlintInit.Get

open Collections

structure CatalogEntry where
  description : String
  distros : Option (List String)
  deriving DecidableEq

abbrev Catalog := Table String CatalogEntry

/-- A service without a list of distros is for all of them. -/
def CatalogEntry.availableFor (entry : CatalogEntry) (distro : String) :
    Bool :=
  match entry.distros with
  | none => true
  | some distros => distros.any (· = distro)

/-! ## The distro -/

/-- `ALLOWED_DISTROS`. -/
def allowedDistros : List String := ["arch", "artix", "void", "gentoo"]

/-- `str::trim_matches` for the quotation mark. -/
def trimQuotes (s : String) : String :=
  String.ofList (((s.toList.dropWhile (· == '"')).reverse.dropWhile
    (· == '"')).reverse)

/-- The distro named by the text of a file at `path`, if it can be read, with
the warning that is printed. -/
def detectDistroFrom (path : String) (content : Option String) :
    String × Option String :=
  match content with
  | none =>
      ("artix", some ("flint-ctl: warning: " ++ path ++
        " not found, defaulting to artix"))
  | some text =>
      match (lines text).findSome? (fun line => stripPrefix line "ID=") with
      | none =>
          ("artix", some ("flint-ctl: warning: ID= not found in " ++ path ++
            ", defaulting to artix"))
      | some val =>
          let id := trimQuotes val
          if id ∈ allowedDistros then (id, none)
          else
            ("artix", some ("flint-ctl: warning: unrecognized distro '" ++
              id ++ "', defaulting to artix"))

/-- The distro, from the text of `/etc/os-release`. -/
def detectDistro (osRelease : Option String) : String × Option String :=
  detectDistroFrom "/etc/os-release" osRelease

/-- Whatever the file says, the distro is one of the allowed ones. -/
theorem detectDistroFrom_allowed (path : String) (content : Option String) :
    (detectDistroFrom path content).1 ∈ allowedDistros := by
  have hdefault : "artix" ∈ allowedDistros := by decide
  unfold detectDistroFrom
  split
  · exact hdefault
  · split
    · exact hdefault
    · dsimp only
      split
      · rename_i hallowed
        exact hallowed
      · exact hdefault

/-! ## Fetching -/

/-- How a request ends. -/
inductive Response where
  | body (text : String)
  /-- The body cannot be read. -/
  | unreadable (e : String)
  /-- Status 404. -/
  | notFound (e : String)
  | failed (e : String)

def servicesUrl : String :=
  "https://raw.githubusercontent.com/RicePollution/flint-init/main/services/"

/-- The server that has these pages and no others. -/
def servePages (pages : List (String × String)) (address : String) :
    Response :=
  match pages.lookup address with
  | some text => .body text
  | none => .notFound (address ++ ": status code 404")

def fetchServiceToml (get : String → Response) (distro name : String) :
    Except String String :=
  let failure (e : String) : Except String String :=
    .error ("failed to fetch service \"" ++ name ++ "\": " ++ e)
  match get (servicesUrl ++ distro ++ "/" ++ name ++ ".toml") with
  | .body text => .ok text
  | .unreadable e => .error e
  | .failed e => failure e
  | .notFound _ =>
      match get (servicesUrl ++ "global/" ++ name ++ ".toml") with
      | .body text => .ok text
      | .unreadable e => .error e
      | .notFound e => failure e
      | .failed e => failure e

/-- The dependencies in `needs` without a file. -/
def missingDeps (fromStr : String → Except String ServiceDef)
    (onDisk : String → Bool) (tomlStr servicesDir : String) :
    Except String (List String) :=
  match fromStr tomlStr with
  | .error e => .error e
  | .ok defn =>
      .ok (defn.needs.filter
        (fun dep => !onDisk (join servicesDir (dep ++ ".toml"))))

/-- What is missing are the needs of the definition, in its order, whose file
is not in the directory. -/
theorem missingDeps_eq_ok {fromStr : String → Except String ServiceDef}
    {onDisk : String → Bool} {tomlStr servicesDir : String}
    {missing : List String} :
    missingDeps fromStr onDisk tomlStr servicesDir = .ok missing ↔
      ∃ defn, fromStr tomlStr = .ok defn ∧ missing = defn.needs.filter
        (fun dep => !onDisk (join servicesDir (dep ++ ".toml"))) := by
  unfold missingDeps
  cases fromStr tomlStr with
  | error e => simp
  | ok defn => simp [eq_comm]

end FlintInit.Get

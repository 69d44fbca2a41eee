import LedPattern.CommandLine.Response

/-!
# Directories in memory

A directory that holds texts, in which a request can be served without touching any disk. A name
with slashes lies in directories below, and those exist as far as names mention them.
-/

namespace LedPattern.CommandLine

/-- A path below a directory: the names on the way. -/
abbrev Route := List String

/-- Files with their routes and contents. -/
structure Directory where
  files : List (Route × String)

namespace Directory

/-- The parts of a path between its slashes. -/
def parts (path : String) : List String := path.splitOn "/"

/-- The route of a name. -/
def routeOf (name : String) : Route := (parts name).filter fun p => p ≠ "" && p ≠ "."

/-- A directory of files given by their names. -/
def ofFiles (files : List (String × String)) : Directory :=
  ⟨files.map fun (name, text) => (routeOf name, text)⟩

/-- The files by their names. -/
def toFiles (d : Directory) : List (String × String) :=
  d.files.map fun (route, text) => ("/".intercalate route, text)

/-- The contents of a file. -/
def text? (d : Directory) (route : Route) : Option String := d.files.lookup route

/-- Whether a route leads to a directory. -/
def isDirectory (d : Directory) (route : Route) : Bool :=
  route.isEmpty || d.files.any fun (r, _) => route.isPrefixOf r && route.length < r.length

/-- What a path leads to. -/
inductive Entry where
  | directory (route : Route)
  | file (route : Route)
  /-- Nothing yet, in a directory that exists. -/
  | vacant (route : Route)
deriving DecidableEq, Repr

/-- What parts lead to that start outside. Only the way up is known to exist there. -/
def followOutside (ps : List String) : Except FileFault Entry :=
  if ps.all fun p => p = "" || p = "." || p = ".." then .ok (.directory []) else .error .missing

/-- What the parts of a path lead to from a directory below. -/
def follow (d : Directory) : Route → List String → Except FileFault Entry
  | here, [] => .ok (.directory here)
  | here, part :: rest =>
    if part = "" ∨ part = "." then d.follow here rest
    else if part = ".." then
      if here.isEmpty then followOutside rest else d.follow here.dropLast rest
    else
      let next := here ++ [part]
      if d.isDirectory next then d.follow next rest
      else if (d.text? next).isSome then
        if rest.isEmpty then .ok (.file next) else .error .notDirectory
      else if rest.isEmpty then .ok (.vacant next)
      else .error .missing

/-- What a path leads to. -/
def find (d : Directory) (path : String) : Except FileFault Entry :=
  match parts path with
  | "" :: rest => followOutside rest
  | ps => d.follow [] ps

/-- The contents of a file. -/
def read (d : Directory) (path : String) : Except FileFault String :=
  match d.find path with
  | .ok (.file route) => .ok ((d.text? route).getD "")
  | .ok (.directory _) => .error .isDirectory
  | .ok (.vacant _) => .error .missing
  | .error fault => .error fault

/-- The directory with a file that has other contents, or is new. -/
def put (d : Directory) (route : Route) (text : String) : Directory :=
  if (d.text? route).isSome then
    ⟨d.files.map fun (r, old) => (r, if r = route then text else old)⟩
  else ⟨d.files ++ [(route, text)]⟩

/-- A path without the slashes at its end. -/
def withoutSlashes (path : String) : String :=
  String.ofList (path.toList.reverse.dropWhile (· = '/')).reverse

/-- Writes a file. A slash at the end of a path asks for a directory. -/
def write (d : Directory) (path text : String) : Except FileFault Directory :=
  match d.find (withoutSlashes path) with
  | .ok (.file route) | .ok (.vacant route) =>
    if withoutSlashes path = path then .ok (d.put route text) else .error .isDirectory
  | .ok (.directory _) => .error .isDirectory
  | .error fault => .error fault

/-- The files of a directory that another one lacks or has with other contents. -/
def changesSince (d before : Directory) : Directory :=
  ⟨d.files.filter fun (route, text) => before.text? route ≠ some text⟩

/-- Answers a request and writes its file. -/
def serve (d : Directory) (request : Request) : Response × Directory :=
  let response := Id.run (request.respond fun path => d.read path)
  match response.save with
  | none => (response, d)
  | some save =>
    match d.write save.path save.text with
    | .ok next => (response, next)
    | .error fault => (response.afterSave save.path (.error fault), d)

end Directory

end LedPattern.CommandLine

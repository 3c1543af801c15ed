import Typeahead.Host
import Typeahead.Members
import Typeahead.Text.Quoted
import Typeahead.Text.Utf8

/-!
# Trees of files and directories

A directory has members, each a file or a directory again, under names that are octets. A location in a tree
is the list of the names on the way down to it. After a change `at?_put_append` says what is at the location
and below, `get?_put_above` what is above it, and `at?_put_apart` that all else is as before. Paths start at
the top. A path is a text, of which the names are made octets; it is followed step by step, and the first step
that is not possible ends it; `at?_place_of_follow` says that what it leads to is at its place in the tree.
-/

namespace Typeahead

open Text.Utf8 (Octets)

/-- The names from the top down to an entry. -/
abbrev Location := List Octets

inductive FileTree
  | file (content : Octets)
  | directory (members : List (Octets × FileTree))

inductive Entry
  | file (content : Octets)
  | directory
deriving DecidableEq

inductive FileError
  | notFound
  | alreadyThere
  | notDirectory
  | isDirectory
  | nameTooLong
deriving DecidableEq, Repr

inductive FileFault
  | failed (error : FileError) (path : Text)
  | embeddedNull
  /-- From a position on, surrogates follow each other of which the first stands for no octet. -/
  | unencodable (position : Nat) (surrogates : Text)
  /-- So many directories cannot be made at once. -/
  | tooDeep
deriving DecidableEq

namespace FileTree

def empty : FileTree := directory []

def entry : FileTree → Entry
  | file content => .file content
  | directory _ => .directory

def members : FileTree → List (Octets × FileTree)
  | file _ => []
  | directory members => members

@[simp] theorem members_directory (ms : List (Octets × FileTree)) : (directory ms).members = ms := rfl

def at? : FileTree → Location → Option FileTree
  | tree, [] => some tree
  | tree, name :: rest => (Members.get? tree.members name).bind (at? · rest)

def get? (tree : FileTree) (place : Location) : Option Entry := (tree.at? place).map entry

/-- Puts a tree at a location. All on the way there becomes directories. -/
def put : Location → FileTree → FileTree → FileTree
  | [], new, _ => new
  | name :: rest, new, tree =>
    directory (Members.put name (put rest new ((Members.get? tree.members name).getD empty))
      tree.members)

theorem at?_append (tree : FileTree) (place below : Location) :
    tree.at? (place ++ below) = (tree.at? place).bind (at? · below) := by
  induction place generalizing tree with
  | nil => rfl
  | cons name rest ih => cases h : Members.get? tree.members name <;> simp [at?, h, ih]

theorem at?_put_append (place below : Location) (new tree : FileTree) :
    at? (put place new tree) (place ++ below) = at? new below := by
  induction place generalizing tree with
  | nil => rfl
  | cons name rest ih => simp [put, at?, ih]

theorem get?_put_self (place : Location) (new tree : FileTree) :
    get? (put place new tree) place = some new.entry := by
  have h := at?_put_append place [] new tree
  rw [List.append_nil] at h
  simp [get?, h, at?]

theorem get?_put_above (place : Location) (name : Octets) (below : Location) (new tree : FileTree) :
    get? (put (place ++ name :: below) new tree) place = some .directory := by
  induction place generalizing tree with
  | nil => rfl
  | cons first rest ih => simpa [get?, put, at?] using ih _

theorem at?_put_apart (place : Location) {name other : Octets} (h : other ≠ name)
    (below below' : Location) (new tree : FileTree) :
    at? (put (place ++ name :: below) new tree) (place ++ other :: below')
      = at? tree (place ++ other :: below') := by
  induction place generalizing tree with
  | nil => simp [put, at?, Members.get?_put_of_ne h]
  | cons first rest ih =>
    cases hm : Members.get? tree.members first with
    | none =>
      have hnone (t : Location) : at? empty (rest ++ other :: t) = none := by
        cases rest <;> rfl
      simp [put, at?, hm, ih, hnone]
    | some t => simp [put, at?, hm, ih]

/-! ## Names -/

/-- The octets of a code point in a name. A surrogate may stand for an octet that is not read as UTF-8. -/
def nameOctets? : CodePoint → Option Octets
  | .scalar c => some (Text.Utf8.encodeCodePoint c)
  | .surrogate n => if 0x480 ≤ n.val ∧ n.val < 0x500 then some [.ofNat (n.val - 0x400)] else none

def isEncodable (c : CodePoint) : Bool := (nameOctets? c).isSome

-- a text with any other surrogate is refused before it is made octets
def octets (t : Text) : Octets := t.flatMap fun c => (nameOctets? c).getD []

def octetCount (t : Text) : Nat := (octets t).length

def nameLimit : Nat := 255

def pathLimit : Nat := 4095

def here : Octets := [0x2e]

def above : Octets := [0x2e, 0x2e]

def isDots (name : Octets) : Bool := name = here || name = above

/-! ## Following paths -/

def isSlash (c : CodePoint) : Bool := c = '/'

def isSurrogate : CodePoint → Bool
  | .scalar _ => false
  | .surrogate _ => true

/-- What is between the slashes of a path; some of it may be empty. -/
def splitPath : Text → List Text
  | [] => [[]]
  | c :: t =>
    if isSlash c then [] :: splitPath t
    else
      match splitPath t with
      | name :: names => (c :: name) :: names
      | [] => [[c]]

/-- The names of a path, and whether a slash follows the last. -/
def names (path : Text) : List Octets × Bool :=
  (((splitPath path).filter (· ≠ [])).map octets, path.getLast? = some '/')

/-- The way down to a tree: the names and the trees on it, the last ones first. -/
abbrev Way := List (Octets × FileTree)

def Way.place (way : Way) : Location := way.reverse.map (·.1)

def Way.reached (top : FileTree) (way : Way) : FileTree := (way.head?.map (·.2)).getD top

def step (top : FileTree) (way : Way) (name : Octets) : Except FileError Way :=
  match way.reached top with
  | file _ => .error .notDirectory
  | directory members =>
    if name = here then .ok way
    else if name = above then .ok way.tail
    else if nameLimit < name.length then .error .nameTooLong
    else
      match Members.get? members name with
      | none => .error .notFound
      | some tree => .ok ((name, tree) :: way)

def follow (top : FileTree) (names : List Octets) : Except FileError Way := names.foldlM (step top) []

/-- Each tree on the way is a member of the one before it, under its name. -/
def Way.leadsFrom (top : FileTree) : Way → Prop
  | [] => True
  | (name, tree) :: before =>
    Members.get? (Way.reached top before).members name = some tree ∧ Way.leadsFrom top before

theorem Way.leadsFrom_tail {top : FileTree} {way : Way} (h : way.leadsFrom top) :
    Way.leadsFrom top way.tail := by
  cases way with
  | nil => exact h
  | cons last before => exact h.2

theorem Way.at?_place {top : FileTree} {way : Way} (h : way.leadsFrom top) :
    top.at? way.place = some (way.reached top) := by
  induction way with
  | nil => rfl
  | cons last before ih =>
    have split : Way.place (last :: before) = Way.place before ++ [last.1] := by simp [Way.place]
    rw [split, at?_append, ih h.2, Option.bind_some, at?, h.1]
    rfl

theorem leadsFrom_of_step {top : FileTree} {way way' : Way} {name : Octets} (h : way.leadsFrom top)
    (hstep : step top way name = .ok way') : way'.leadsFrom top := by
  unfold step at hstep
  cases hr : way.reached top with
  | file content => simp [hr] at hstep
  | directory members =>
    simp only [hr] at hstep
    split at hstep
    · cases hstep; exact h
    split at hstep
    · cases hstep; exact Way.leadsFrom_tail h
    split at hstep
    · cases hstep
    cases hm : Members.get? members name with
    | none => simp [hm] at hstep
    | some tree =>
      simp only [hm] at hstep
      cases hstep
      exact ⟨by rw [hr]; exact hm, h⟩

theorem leadsFrom_of_foldlM {top : FileTree} {start way : Way} {names : List Octets} (hs : start.leadsFrom top)
    (h : names.foldlM (step top) start = .ok way) : way.leadsFrom top := by
  induction names generalizing start with
  | nil => cases h; exact hs
  | cons name rest ih =>
    rw [List.foldlM_cons] at h
    cases hn : step top start name with
    | error e => rw [hn] at h; cases h
    | ok next => rw [hn] at h; exact ih (leadsFrom_of_step hs hn) h

theorem leadsFrom_of_follow {top : FileTree} {names : List Octets} {way : Way}
    (h : follow top names = .ok way) : way.leadsFrom top := by
  have hs : Way.leadsFrom top [] := trivial
  exact leadsFrom_of_foldlM hs h

/-- What a path leads to is at its place. -/
theorem at?_place_of_follow {top : FileTree} {names : List Octets} {way : Way}
    (h : follow top names = .ok way) : top.at? way.place = some (way.reached top) :=
  Way.at?_place (leadsFrom_of_follow h)

/-- The directory that holds what a path leads to, and the name that it has there. There is no such
name if the path is the top's or ends in dots. -/
def parent (top : FileTree) (names : List Octets) : Except FileError (Location × Option Octets) := do
  let way ← follow top names.dropLast
  if (way.reached top).entry ≠ .directory then throw .notDirectory
  return (way.place, names.getLast?.filter fun name => !isDots name)

def checkPath (path : Text) : Except FileFault Unit :=
  if !path.all isEncodable then
    .error (.unencodable (path.takeWhile isEncodable).length
      ((path.dropWhile isEncodable).takeWhile isSurrogate))
  else if .scalar '\x00' ∈ path then .error .embeddedNull
  else if path = [] then .error (.failed .notFound path)
  else if pathLimit < octetCount path then .error (.failed .nameTooLong path)
  else .ok ()

def find (tree : FileTree) (path : Text) : Except FileFault Entry := do
  checkPath path
  let (names, slash) := names path
  match follow tree names with
  | .error e => throw (.failed e path)
  | .ok way =>
    match way.reached tree with
    | file content => if slash then throw (.failed .notDirectory path) else return .file content
    | directory _ => return .directory

def isFile (tree : FileTree) (path : Text) : Bool :=
  match tree.find path with
  | .ok (.file _) => true
  | _ => false

def isDirectory (tree : FileTree) (path : Text) : Bool :=
  match tree.find path with
  | .ok .directory => true
  | _ => false

def leadsSomewhere (tree : FileTree) (path : Text) : Bool := (tree.find path).toOption.isSome

def read (tree : FileTree) (path : Text) : Except FileFault Octets := do
  match ← tree.find path with
  | .file content => return content
  | .directory => throw (.failed .isDirectory path)

/-! ## Changes -/

def write (tree : FileTree) (path : Text) (content : Octets) : Except FileFault FileTree := do
  checkPath path
  let (names, slash) := names path
  match parent tree names with
  | .error e => throw (.failed e path)
  | .ok (_, none) => throw (.failed .isDirectory path)
  | .ok (place, some name) =>
    if slash then throw (.failed .isDirectory path)
    if nameLimit < name.length then throw (.failed .nameTooLong path)
    if tree.get? (place ++ [name]) = some .directory then throw (.failed .isDirectory path)
    return put (place ++ [name]) (file content) tree

def makeDirectory (tree : FileTree) (path : Text) : Except FileFault FileTree := do
  checkPath path
  match parent tree (names path).1 with
  | .error e => throw (.failed e path)
  | .ok (_, none) => throw (.failed .alreadyThere path)
  | .ok (place, some name) =>
    if nameLimit < name.length then throw (.failed .nameTooLong path)
    if (tree.get? (place ++ [name])).isSome then throw (.failed .alreadyThere path)
    return put (place ++ [name]) empty tree

def splitLast (path : Text) : Text × Text :=
  let name := (path.reverse.takeWhile (!isSlash ·)).reverse
  let front := path.take (path.length - name.length)
  let trimmed := (front.reverse.dropWhile isSlash).reverse
  (if trimmed = [] then front else trimmed, name)

/-- Makes a directory after those that are missing on the way to it, outermost first. What is made
stays, also if a later one fails. If there are more than `levels` of them, none is made. -/
def makeDirectories (levels : Nat) (path : Text) (tree : FileTree) :
    Except FileFault Unit × FileTree :=
  match levels with
  | 0 => (.error .tooDeep, tree)
  | levels + 1 =>
    let (front, name) := splitLast path
    let (front, name) := if name = [] then splitLast front else (front, name)
    let last (tree : FileTree) : Except FileFault Unit × FileTree :=
      match tree.makeDirectory path with
      | .ok tree' => (.ok (), tree')
      | .error e => (.error e, tree)
    if front ≠ [] ∧ name ≠ [] ∧ !tree.leadsSomewhere front then
      match makeDirectories levels front tree with
      | (.error (.failed .alreadyThere _), tree') | (.ok (), tree') =>
        if name = "." then (.ok (), tree') else last tree'
      | (.error e, tree') => (.error e, tree')
    else last tree

def ensureDirectory [Host] (path : Text) (tree : FileTree) : Except FileFault Unit × FileTree :=
  if path = [] ∨ tree.isDirectory path then (.ok (), tree)
  else makeDirectories Host.directoryDepth path tree

end FileTree

/-! ## Messages and classes -/

def FileError.message : FileError → Text
  | notFound => "[Errno 2] No such file or directory"
  | alreadyThere => "[Errno 17] File exists"
  | notDirectory => "[Errno 20] Not a directory"
  | isDirectory => "[Errno 21] Is a directory"
  | nameTooLong => "[Errno 36] File name too long"

def FileFault.message : FileFault → Text
  | failed error path => error.message ++ ": " ++ Text.quoted path
  | embeddedNull => "embedded null byte"
  | unencodable position surrogates =>
    let place :=
      if surrogates.length = 1 then
        " '" ++ surrogates.flatMap (fun c => Text.escapeCodePoint c.toNat) ++ "' in position " ++ Text.ofNat position
      else
        "s in position " ++ Text.ofNat position ++ "-" ++ Text.ofNat (position + surrogates.length - 1)
    "'utf-8' codec can't encode character" ++ place ++ ": surrogates not allowed"
  | tooDeep => "maximum recursion depth exceeded"

def FileError.errorClass : FileError → ErrorClass
  | notFound => .notFound
  | alreadyThere => .alreadyThere
  | notDirectory => .notDirectory
  | isDirectory => .isDirectory
  | nameTooLong => .system

def FileFault.errorClass : FileFault → ErrorClass
  | failed error _ => error.errorClass
  | embeddedNull => .value
  | unencodable _ _ => .encoding
  | tooDeep => .recursion

end Typeahead

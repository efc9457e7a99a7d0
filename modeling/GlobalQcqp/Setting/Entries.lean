import GlobalQcqp.Setting.Order
/-!
# Named entries

A value that lists entries under names: a dictionary, or a list of pairs, each of which is a list, a
text of two characters or a dictionary of two names.  Of two entries under one name the later value
counts, in the place of the earlier.
-/

namespace GlobalQcqp

/-- Adds an entry, or replaces the value of the one that has its name. -/
def setEntry {ν : Type} (name : String) (value : ν) :
    List (String × ν) → List (String × ν)
  | [] => [(name, value)]
  | (key, old) :: rest =>
    if key == name then (name, value) :: rest else (key, old) :: setEntry name value rest

def settingNamed? {ν : Type} (name : String) (entries : List (String × ν)) : Option ν :=
  (entries.find? (·.1 == name)).map (·.2)

namespace Setting

def entry? (v : Setting) (name : String) : Option Setting :=
  match v with
  | fields entries => settingNamed? name entries
  | _ => Option.none

def entry (v : Setting) (name : String) : Except Misfit Setting :=
  match v with
  | fields entries => (settingNamed? name entries).elim (.error .name) .ok
  | _ => .error .kind

def fieldEntries : Setting → Except Misfit (List (String × Setting))
  | fields entries => .ok entries
  | _ => .error .kind

/-- The value under a name, unless that is missing or left open. -/
def filled? (v : Setting) (name : String) : Option Setting :=
  (v.entry? name).filter (!·.isNone)

/-- The items that a value is a sequence of. -/
def sequence : Setting → Except Misfit (List Setting)
  | list items => .ok items
  | text s => .ok (s.toList.map fun c ↦ text (String.singleton c))
  | fields entries => .ok (entries.map fun (name, _) ↦ text name)
  | _ => .error .kind

def isName : Setting → Bool
  | list _ | fields _ => false
  | _ => true

/-- Adds a pair, or replaces the value of the one whose name is equal. -/
def setPair (name value : Setting) : List (Setting × Setting) → List (Setting × Setting)
  | [] => [(name, value)]
  | (key, old) :: rest =>
    if equals key name then (key, value) :: rest else (key, old) :: setPair name value rest

private def addItem (pairs : List (Setting × Setting)) (item : Setting) :
    Except Misfit (List (Setting × Setting)) := do
  match ← item.sequence with
  | [name, value] => if name.isName then .ok (setPair name value pairs) else .error .kind
  | _ => .error .content

/-- The entries of a value under names of any kind. -/
def toPairs (v : Setting) : Except Misfit (List (Setting × Setting)) :=
  match v with
  | fields entries => .ok (entries.map fun (name, value) ↦ (text name, value))
  | v => do (← v.sequence).foldlM addItem []

/-- The named entries of a value. A name that is no text is taken by its text. -/
def named (v : Setting) : Except Misfit (List (String × Setting)) :=
  v.toPairs.map (·.map fun (name, value) ↦ (name.plain, value))

def toEntries (v : Setting) : Except Misfit (List (String × Setting)) :=
  if v.isBlank then .ok [] else v.named

end Setting

end GlobalQcqp

/-
  TOML documents: lines of pairs under headers.

  Pairs go into the table of the last header.  That table is built on the side and put in its place
  when the next header or the end of the text closes it, so the rules on who may add to a table are
  asked at three moments:

    * A HEADER OPENS   a table that was only passed through may be opened, once; any other is taken;
    * A PAIR COMES     a dotted key may pass only through tables that no header named, and may end
                       only in one that dotted keys made;
    * A HEADER CLOSES  the table goes where its path leads, or to the end of an array of tables.
-/
import LogRotation.Toml.Value

namespace LogRotation.Toml

/-! ## Ways into a table -/

/-- Changes the table that a path leads to, making the tables on the way.  `byKey` tells that the
path belongs to a dotted key and not to a header. -/
def changeAt? (byKey : Bool) (change : TableKind → Entries → Option Entries) :
    KeyPath → TableKind → Entries → Option Entries
  | [], kind, entries => change kind entries
  | step :: path, _, entries =>
    match lookup step entries with
    | none =>
      let kind : TableKind := if byKey then .dotted else .implicit
      (changeAt? byKey change path kind []).map fun inner => entries ++ [(step, .table kind inner)]
    | some (.table .inline _) => none
    | some (.table kind inner) =>
      if byKey && kind == .header then none
      else (changeAt? byKey change path kind inner).map fun inner =>
        set step (.table kind inner) entries
    | some (.tables elements) =>
      (changeAt? byKey change path .header (elements.getLast?.getD [])).map fun inner =>
        set step (.tables (elements.dropLast ++ [inner])) entries
    | some _ => none

/-- Drops a key. -/
def erase (key : List Char) (entries : Entries) : Entries := entries.filter fun e => e.1 != key

/-- The entries of the table that the path of a header leads to, as far as there are any. -/
def entriesAt : KeyPath → Entries → Entries
  | [], entries => entries
  | step :: path, entries =>
    match lookup step entries with
    | some (.table _ inner) => entriesAt path inner
    | some (.tables elements) => entriesAt path (elements.getLast?.getD [])
    | _ => []

/-! ## Reading -/

/-- A document while it is read: what is in its place, and the table under the last header. -/
structure Draft where
  root : Entries
  path : KeyPath
  current : Entries
  /-- Set when the last header opened an element of an array of tables. -/
  isElement : Bool

/-- Nothing is read; pairs go to the root. -/
def Draft.empty : Draft := ⟨[], [], [], false⟩

/-- The last part of a path. -/
def lastKey (path : KeyPath) : List Char := path.getLast?.getD []

/-- Puts the table under the last header in its place. -/
def Draft.close? (d : Draft) : Option Entries :=
  match d.path with
  | [] => some d.current
  | path =>
    let place (_ : TableKind) (entries : Entries) : Option Entries :=
      if d.isElement then
        match lookup (lastKey path) entries with
        | none => some (entries ++ [(lastKey path, .tables [d.current])])
        | some (.tables elements) =>
          some (set (lastKey path) (.tables (elements ++ [d.current])) entries)
        | some _ => none
      else
        match lookup (lastKey path) entries with
        | none => some (entries ++ [(lastKey path, .table .header d.current)])
        | some (.table .implicit _) => some (set (lastKey path) (.table .header d.current) entries)
        | some _ => none
    changeAt? false place path.dropLast .header d.root

/-- Opens the table of a header. -/
def Draft.openTable? (d : Draft) (path : KeyPath) : Option Draft := do
  let root ← d.close?
  let key := lastKey path
  match lookup key (entriesAt path.dropLast root) with
  | none =>
    let root ← changeAt? false (fun _ entries => some entries) path.dropLast .header root
    return ⟨root, path, [], false⟩
  | some (.table .implicit inner) =>
    let root ← changeAt? false (fun _ entries => some (erase key entries)) path.dropLast .header root
    return ⟨root, path, inner, false⟩
  | some _ => none

/-- Opens a new element of an array of tables. -/
def Draft.openElement? (d : Draft) (path : KeyPath) : Option Draft := do
  let root ← d.close?
  let key := lastKey path
  match lookup key (entriesAt path.dropLast root) with
  | none | some (.tables _) =>
    let root ← changeAt? false (fun _ entries => some entries) path.dropLast .header root
    return ⟨root, path, [], true⟩
  | some _ => none

/-- Adds a pair to the table under the last header. -/
def Draft.insert? (d : Draft) (path : KeyPath) (v : Value) : Option Draft := do
  let add (kind : TableKind) (entries : Entries) : Option Entries :=
    if (kind == .dotted) == path.dropLast.isEmpty then none
    else if (lookup (lastKey path) entries).isSome then none
    else some (entries ++ [(lastKey path, v)])
  let current ← changeAt? true add path.dropLast .header d.current
  return { d with current := current }

/-- Reads one line, which may hold a string or an array that runs over several. -/
def line? (d : Draft) (cs : List Char) : Option (Draft × List Char) :=
  match skip cs with
  | [] => some (d, [])
  | '#' :: rest => (lineEnd? ('#' :: rest)).map fun r => (d, r)
  | '[' :: '[' :: rest => do
    let (path, rest) ← key? (depthLimit - 1) rest
    let rest ← only? ']' (← only? ']' rest)
    return (← d.openElement? path, ← lineEnd? rest)
  | '[' :: rest => do
    let (path, rest) ← key? (depthLimit - 1) rest
    let rest ← only? ']' rest
    return (← d.openTable? path, ← lineEnd? rest)
  | cs =>
    match newline? cs with
    | some rest => some (d, rest)
    | none => do
      let (path, rest) ← key? (depthLimit - 1) cs
      let rest ← only? '=' rest
      let (v, rest) ← value? (rest.length + 1) (depthLimit - 1) (skip rest)
      return (← d.insert? path v, ← lineEnd? rest)

/-- Reads lines to the end of the text.  The number bounds their count. -/
def lines? : Nat → Draft → List Char → Option Entries
  | 0, _, _ => none
  | _ + 1, d, [] => d.close?
  | fuel + 1, d, cs => do
    let (d, rest) ← line? d cs
    lines? fuel d rest

/-- Reads a document; a byte order mark may begin it. -/
def document? (cs : List Char) : Option Entries :=
  let cs := match cs with
    | '\uFEFF' :: rest => rest
    | cs => cs
  lines? (cs.length + 1) .empty cs

end LogRotation.Toml

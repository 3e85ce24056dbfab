import ReadGuard.Code.Basic
import ReadGuard.Load.Args
import ReadGuard.Load.Fault
import ReadGuard.TypeCache

namespace ReadGuard

structure Load.State where
  file : String
  types : TypeCache := {}

/-- A step of loading, which may fail. The state survives a failure. -/
abbrev Load := ExceptT LoadError (StateM Load.State)

namespace Load

abbrev Keys := String → Option Sexp

def fail {α : Type} (fault : Fault) (pos : Position := {}) : Load α :=
  throw ⟨fault, pos⟩

def text : Sexp → Load String
  | .str s => pure s
  | .sym s => pure s
  | .int n => pure (toString n)
  | .float x => pure x.text
  | found => fail (.notText found)

def integer : Sexp → Load Int
  | .int n => pure n
  | found => fail (.notInteger found)

def textOr (keys : Keys) (key default : String) : Load String :=
  match keys key with
  | some s => text s
  | none => pure default

def here (line column offset : Int) : Load Position := do
  return ⟨(← get).file, line, column, offset⟩

/-- The place given by `:at`, else the first known place among the fallbacks. -/
def position (keys : Keys) (fallback : List Position) : Load Position :=
  match keys "at" with
  | none =>
    match fallback.find? (·.isKnown) with
    | some pos => pure pos
    | none => here 0 0 (-1)
  | some (.list [line, column]) => do
    here (← integer line) (← integer column) (-1)
  | some (.list [line, column, offset]) => do
    let offset ← integer offset
    here (← integer line) (← integer column) offset
  | some found => fail (.badPosition found)

def failAt {α : Type} (keys : Keys) (fault : Fault) : Load α := do
  fail fault (← position keys [])

def typeOf (keys : Keys) : Load (Option Ty) :=
  match keys "type" with
  | none => pure none
  | some s => do
    let text ← text s
    let state ← get
    match state.types.get text with
    | .ok (entry, types) =>
      set { state with types := types }
      return some entry.type
    | .error cause => failAt keys (.badType cause)

def info (keys : Keys) (fallback : List Position) : Load Info := do
  let type ← typeOf keys
  let pos ← position keys fallback
  return ⟨type, pos⟩

def splitArgs {α : Type} (raw : α → Sexp) (head : Option String) (tail : List α) :
    Load (Args α) :=
  match Args.split (fun x => keyword? (raw x)) tail with
  | .ok args => pure args
  | .error key => fail (.keywordWithoutValue (":" ++ key) head)

def param (s : Sexp) : Load Param := do
  match s with
  | .list (first :: rest) =>
    let args ← splitArgs id none (first :: rest)
    let (name, type) ← match args.items with
      | [type] => pure ("", type)
      | [name, type] => pure (← text name, type)
      | _ => fail (.badParam s)
    let keys : Keys := fun key =>
      match args.get? key with
      | some value => some value
      | none => if key = "type" then some type else none
    return ⟨name, ← info keys []⟩
  | _ => fail (.notParam s)

def params (s : Sexp) : Load (List Param) :=
  match s with
  | .list (.sym "params" :: items) => items.mapM param
  | _ => fail (.notParams s)

end Load

end ReadGuard

import Statechart.Json.Token

/-!
# Reading JSON text

The reader is a machine with a stack of open arrays and objects. It takes one token at a time and
ends when the first value is complete, returning the text after it. A record is read with the names
of its fields in view: the values of other members are skimmed.
-/
namespace Statechart.Json

open Text

/-- An array or object that is open, with what it holds so far in reverse; an object is between
two members or inside one. -/
inductive Frame where
  | items (done : List Json)
  | members (done : List (String × Json))
  | member (done : List (String × Json)) (key : String)

/-- What the next token may be. -/
inductive Place where
  | value
  | itemOrClose
  | keyOrClose
  | key
  | colon
  | afterValue (last : Json)

/-- The machine between two tokens. -/
structure ReadState where
  place : Place
  stack : List Frame

/-- Fewer arrays and objects than this may be open at once. -/
def depthLimit : Nat := 128

/-- Whether what comes next is skimmed, given whether what came before was. It is from the colon of
an unwanted member of the outermost object to the end of that member's value. -/
def ReadState.skims (wanted : String → Bool) (before : Bool) (state : ReadState) : Bool :=
  match state.place, state.stack with
  | .value, [.member _ key] => !wanted key
  | .afterValue _, [_] => false
  | _, _ => before

/-- The state after the first token of a value. What is skimmed may be nested to any depth. -/
def beginValue? (skim : Bool) (stack : List Frame) : Token → Option ReadState
  | .scalar v => some ⟨.afterValue v, stack⟩
  | .openArr =>
    if skim || stack.length + 1 < depthLimit then some ⟨.itemOrClose, .items [] :: stack⟩
    else none
  | .openObj =>
    if skim || stack.length + 1 < depthLimit then some ⟨.keyOrClose, .members [] :: stack⟩
    else none
  | _ => none

/-- One step on a token that belongs to the value being read. -/
def ReadState.step? (skim : Bool) (state : ReadState) (token : Token) : Option ReadState :=
  match state.place, token, state.stack with
  | .value, t, stack => beginValue? skim stack t
  | .itemOrClose, .closeArr, .items done :: stack => some ⟨.afterValue (arr done.reverse), stack⟩
  | .itemOrClose, t, stack => beginValue? skim stack t
  | .keyOrClose, .closeObj, .members done :: stack =>
    some ⟨.afterValue (obj done.reverse), stack⟩
  | .keyOrClose, .scalar (str k), .members done :: stack =>
    some ⟨.colon, .member done k :: stack⟩
  | .key, .scalar (str k), .members done :: stack => some ⟨.colon, .member done k :: stack⟩
  | .colon, .colon, stack => some ⟨.value, stack⟩
  | .afterValue v, .comma, .items done :: stack => some ⟨.value, .items (v :: done) :: stack⟩
  | .afterValue v, .closeArr, .items done :: stack =>
    some ⟨.afterValue (arr (v :: done).reverse), stack⟩
  | .afterValue v, .comma, .member done k :: stack =>
    some ⟨.key, .members ((k, v) :: done) :: stack⟩
  | .afterValue v, .closeObj, .member done k :: stack =>
    some ⟨.afterValue (obj ((k, v) :: done).reverse), stack⟩
  | _, _, _ => none

/-- The complete value, once nothing is open. -/
def ReadState.finished? (state : ReadState) : Option Json :=
  match state.place, state.stack with
  | .afterValue v, [] => some v
  | _, _ => none

/-- Runs the machine to the end of the first value. -/
def readFrom (wanted : String → Bool) (skim : Bool) (state : ReadState) (cs : List Char) :
    Option (Json × List Char) :=
  match state.finished? with
  | some v => some (v, cs)
  | none =>
    match _h : cs.dropWhile isSpace with
    | [] => none
    | c :: rest =>
      match state.step? skim (scanFrom skim c rest).1 with
      | none => none
      | some next => readFrom wanted (next.skims wanted skim) next (scanFrom skim c rest).2
termination_by cs.length
decreasing_by
  have := length_dropWhile_le isSpace cs
  rw [_h, List.length_cons] at this
  exact Nat.lt_of_le_of_lt (length_scanFrom_le _ c rest) this

/-- Reads the document that a text starts with, and returns the text after it. -/
def readFirst (text : String) : Option (Json × List Char) :=
  readFrom (fun _ => true) false ⟨.value, []⟩ text.toList

/-- A document that has nothing but blanks after it. -/
def alone? : Option (Json × List Char) → Option Json
  | some (value, rest) => if rest.all isSpace then some value else none
  | none => none

/-- Reads a text that is one value, in normal form. -/
def read? (text : String) : Option Json := (alone? (readFirst text)).map normal

/-- Reads a text that is one record with some fields, its members as written. Of the members with
other names only the names count. -/
def readRecord? (fields : List String) (text : String) : Option Json :=
  alone? (readFrom fields.contains false ⟨.value, []⟩ text.toList)

end Statechart.Json

import Enrollment.Json.Token

/-! # Document outlines

An outline is a document as far as its text can be read. Faults stay in it as parts, at the place
where a reader meets them, so a reader that walks an outline from left to right reports whatever
comes first: a fault of the text or a value it cannot use.

The outline is built by one pass over the tokens with a stack of the containers that are open.
-/

namespace Enrollment.Json

/-- How a container ends: by its bracket, by a fault, by the end of the text where a key is due, or
by a token in the place of a key. -/
inductive Ending where
  | closed
  | fault (f : Fault)
  | keyDue
  | badKey (t : Token)
  deriving DecidableEq, Repr

inductive Outline where
  | null
  | bool (b : Bool)
  | number (n : Numeral)
  | shortNumber
  | text (q : Quoted)
  | list (items : List Outline) (ending : Ending)
  | object (members : List (Quoted × Outline)) (ending : Ending)
  | broken (fault : Fault)
  deriving Repr

namespace Outline

/-- An open container and what it holds so far, newest first. -/
inductive Frame where
  | item (before : List Outline)
  | member (before : List (Quoted × Outline)) (key : Quoted)

/-- What may come next, inside the open containers. -/
inductive State where
  | value (frames : List Frame)
  | firstItem (frames : List Frame)
  | firstKey (frames : List Frame)
  | key (before : List (Quoted × Outline)) (frames : List Frame)
  | colon (before : List (Quoted × Outline)) (key : Quoted) (frames : List Frame)
  | after (node : Outline) (frames : List Frame)
  /-- Nothing more is read; `more` says that text follows a whole document. -/
  | stopped (root : Outline) (more : Bool)

/-- Puts a part that holds a fault into the containers around it. -/
def enclose (node : Outline) : List Frame → Outline
  | [] => node
  | .item before :: frames => enclose (.list (node :: before).reverse .closed) frames
  | .member before key :: frames =>
    enclose (.object ((key, node) :: before).reverse .closed) frames

def State.stop (node : Outline) (frames : List Frame) : State :=
  .stopped (enclose node frames) false

/-- A value is due. -/
def valueStep (frames : List Frame) : Token → State
  | .null => .after .null frames
  | .bool b => .after (.bool b) frames
  | .number n => .after (.number n) frames
  | .shortNumber => .stop .shortNumber frames
  | .text q => .after (.text q) frames
  | .openList => .firstItem frames
  | .openObject => .firstKey frames
  | .broken fault => .stop (.broken fault) frames
  | .closeList | .closeObject | .comma | .colon => .stop (.broken .malformed) frames

def keyStep (before : List (Quoted × Outline)) (frames : List Frame) : Token → State
  | .text q => .colon before q frames
  | token => .stop (.object before.reverse (.badKey token)) frames

/-- A container goes on or closes after each of its values. -/
def afterStep (node : Outline) : List Frame → Token → State
  | [], _ => .stopped node true
  | .item before :: frames, token =>
    match token with
    | .comma => .value (.item (node :: before) :: frames)
    | .closeList => .after (.list (node :: before).reverse .closed) frames
    | _ => .stop (.list (node :: before).reverse (.fault .malformed)) frames
  | .member before key :: frames, token =>
    match token with
    | .comma => .key ((key, node) :: before) frames
    | .closeObject => .after (.object ((key, node) :: before).reverse .closed) frames
    | _ => .stop (.object ((key, node) :: before).reverse (.fault .malformed)) frames

def step : State → Token → State
  | .value frames, token => valueStep frames token
  | .firstItem frames, token =>
    if token = .closeList then .after (.list [] .closed) frames
    else valueStep (.item [] :: frames) token
  | .firstKey frames, token =>
    if token = .closeObject then .after (.object [] .closed) frames
    else keyStep [] frames token
  | .key before frames, token => keyStep before frames token
  | .colon before key frames, token =>
    if token = .colon then .value (.member before key :: frames)
    else .stop (.object ((key, .broken .malformed) :: before).reverse (.fault .malformed)) frames
  | .after node frames, token => afterStep node frames token
  | .stopped root more, _ => .stopped root more

/-- The text ends here. -/
def finish : State → Outline × Bool
  | .value frames => (enclose (.broken .truncated) frames, false)
  | .firstItem frames => (enclose (.list [] (.fault .truncated)) frames, false)
  | .firstKey frames => (enclose (.object [] .keyDue) frames, false)
  | .key before frames => (enclose (.object before.reverse .keyDue) frames, false)
  | .colon before key frames =>
    (enclose (.object ((key, .broken .truncated) :: before).reverse (.fault .truncated)) frames,
      false)
  | .after node [] => (node, false)
  | .after node (.item before :: frames) =>
    (enclose (.list (node :: before).reverse (.fault .truncated)) frames, false)
  | .after node (.member before key :: frames) =>
    (enclose (.object ((key, node) :: before).reverse (.fault .truncated)) frames, false)
  | .stopped root more => (root, more)

/-- The outline of a text, and whether anything follows the document. -/
def ofBytes (bytes : Bytes) : Outline × Bool :=
  finish ((tokens bytes).foldl step (.value []))

end Outline

end Enrollment.Json

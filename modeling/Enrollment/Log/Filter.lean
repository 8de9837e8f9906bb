import Enrollment.Decimal.Integer
import Enrollment.Text.Blank

/-! # Log filters

A filter is a list of directives, separated by commas. A directive sets the level for the targets
that begin with its own target, and the longest such target decides. Directives for spans never
decide about an event outside of spans.
-/

namespace Enrollment.Log

inductive Level where
  | error
  | warn
  | info
  | debug
  | trace
  deriving DecidableEq, Repr

def Level.name : Level → String
  | .error => "ERROR"
  | .warn => "WARN"
  | .info => "INFO"
  | .debug => "DEBUG"
  | .trace => "TRACE"

/-- How many of the levels are let through up to this one. -/
def Level.verbosity : Level → Nat
  | .error => 1
  | .warn => 2
  | .info => 3
  | .debug => 4
  | .trace => 5

structure Event where
  target : String
  level : Level
  fields : List String
  deriving DecidableEq, Repr

structure Directive where
  target : Option String
  inSpan : Option String
  fields : List String
  verbosity : Nat
  deriving DecidableEq, Repr

/-- A filter has an entry that is not a directive. -/
structure FilterError where
  deriving DecidableEq, Repr

namespace Directive

def maxVerbosity : Nat := 5

def words : List (String × Nat) :=
  [("off", 0), ("error", 1), ("warn", 2), ("info", 3), ("debug", 4), ("trace", 5)]

def numeral? (text : String) : Option Nat :=
  match Decimal.readNat 0xffffffffffffffff text with
  | .ok n => if n ≤ maxVerbosity then some n else none
  | .error _ => none

def verbosity? (text : String) : Option Nat :=
  match numeral? text with
  | some n => some n
  | none => words.lookup (Text.lower text)

/-- The text after the equals sign of a directive; nothing there stands for everything. -/
def withLevel (directive : Directive) (text : List Char) : Except FilterError Directive :=
  if text = [] then .ok { directive with verbosity := maxVerbosity }
  else match verbosity? (String.ofList text) with
    | some n => .ok { directive with verbosity := n }
    | none => .error ⟨⟩

/-- What follows the brackets of a span. -/
def afterSpan (directive : Directive) : List Char → Except FilterError Directive
  | [] => .ok directive
  | '=' :: text => directive.withLevel text
  | _ => .error ⟨⟩

/-- What follows the opening bracket of a span: its name, a field in braces, or both. -/
def ofSpan (target : Option String) (cs : List Char) : Except FilterError Directive :=
  let isMark (c : Char) : Bool := c = ']' || c = '\x7b'
  let name := String.ofList (cs.takeWhile (! isMark ·))
  match cs.dropWhile (! isMark ·) with
  | ']' :: rest => afterSpan ⟨target, some name, [], maxVerbosity⟩ rest
  | '\x7b' :: rest =>
    let field := rest.takeWhile (· ≠ '\x7d')
    match rest.dropWhile (· ≠ '\x7d') with
    | '\x7d' :: ']' :: rest =>
      if field = [] then .error ⟨⟩
      else
        let inSpan := if name = "" then none else some name
        afterSpan ⟨target, inSpan, [String.ofList field], maxVerbosity⟩ rest
    | _ => .error ⟨⟩
  | _ => .error ⟨⟩

/-- Characters that a target may begin with. All beyond ASCII count as letters. -/
def isStart (c : Char) : Bool :=
  c.isAlphanum || c = '-' || c = ':' || c = '_' || 0x80 ≤ c.toNat

def ofText (text : String) : Except FilterError Directive :=
  let cs := Text.trimBy Text.isBlank text.toList
  match cs with
  | [] => .error ⟨⟩
  | '[' :: rest => ofSpan none rest
  | c :: _ =>
    if isStart c then
      let isMark (c : Char) : Bool := c = '=' || c = '['
      let head := String.ofList (cs.takeWhile (! isMark ·))
      match cs.dropWhile (! isMark ·) with
      | '=' :: level => withLevel ⟨some head, none, [], maxVerbosity⟩ level
      | '[' :: rest => ofSpan (some head) rest
      | _ =>
        match verbosity? head with
        | some n => .ok ⟨none, none, [], n⟩
        | none => .ok ⟨some head, none, [], maxVerbosity⟩
    else .error ⟨⟩

/-- Whether a directive can decide about events outside of spans: it names no span, and no value of
a field. -/
def isStatic (directive : Directive) : Bool :=
  directive.inSpan.isNone && directive.fields.all fun field => !field.toList.contains '='

def applies (directive : Directive) (event : Event) : Bool :=
  directive.isStatic && directive.target.all (Text.startsWith · event.target) &&
    directive.fields.all event.fields.contains

/-- How closely a directive describes what it applies to. -/
def specificity (directive : Directive) : Nat × Nat :=
  ((directive.target.map fun target => target.utf8ByteSize + 1).getD 0, directive.fields.length)

/-- Whether the second directive decides where both apply; of two alike the later one does. -/
def yields (a b : Directive) : Bool :=
  let (targetA, fieldsA) := a.specificity
  let (targetB, fieldsB) := b.specificity
  targetA < targetB || (targetA = targetB && fieldsA ≤ fieldsB)

end Directive

structure Filter where
  directives : List Directive
  deriving DecidableEq, Repr

namespace Filter

def ofText (text : String) : Except FilterError Filter :=
  let pieces := (Text.split ',' text.toList).filter (· ≠ [])
  (pieces.mapM fun piece => Directive.ofText (String.ofList piece)).map Filter.mk

/-- The directive that decides about an event. -/
def decisive? (filter : Filter) (event : Event) : Option Directive :=
  (filter.directives.filter (·.applies event)).foldl
    (fun best directive =>
      match best with
      | none => some directive
      | some other => if other.yields directive then some directive else some other)
    none

def lets (filter : Filter) (event : Event) : Bool :=
  match filter.decisive? event with
  | some directive => event.level.verbosity ≤ directive.verbosity
  | none => false

end Filter

end Enrollment.Log

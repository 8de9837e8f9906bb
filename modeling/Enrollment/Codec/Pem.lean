import Enrollment.Codec.Base64
import Enrollment.Text.Blank
import Enrollment.Text.Quoted

/-! # PEM

Blocks of base64 between a BEGIN and an END line. Text around blocks does not count, neither do
blanks inside the data. A block may have headers before an empty line. Blocks are written with
lines of 64 symbols that end in carriage return and line feed.
-/

namespace Enrollment

structure Pem where
  tag : String
  contents : Bytes
  deriving DecidableEq, Repr

inductive PemError where
  | framing
  | missingBegin
  | missingEnd
  | mismatch (opening closing : String)
  | data (cause : Base64.DecodeError)
  | header (line : String)
  deriving DecidableEq, Repr

def PemError.message : PemError → String
  | .framing => "malformedframing"
  | .missingBegin => "missing BEGIN tag"
  | .missingEnd => "missing END tag"
  | .mismatch opening closing =>
    "mismatching BEGIN (" ++ Text.quoted opening ++ ") and END (" ++ Text.quoted closing ++ ") tags"
  | .data cause => "invalid data: " ++ cause.message
  | .header line => "invalid header: " ++ line

namespace Pem

/-- The text before and after a mark. The search keeps no memory: a character that breaks a match
is not tried as the start of the next one. -/
def cut (mark : List Char) : List Char → List Char → List Char →
    Option (List Char × List Char)
  | [], _, cs => some ([], cs)
  | _ :: _, _, [] => none
  | due :: dues, seen, c :: cs =>
    if c = due then cut mark dues (c :: seen) cs
    else (cut mark mark [] cs).map fun (before, after) => (seen.reverse ++ c :: before, after)

def cutAt (mark : String) (cs : List Char) : Option (List Char × List Char) :=
  cut mark.toList mark.toList [] cs

theorem cut_length_le {mark due seen cs before after : List Char}
    (h : cut mark due seen cs = some (before, after)) : after.length ≤ cs.length := by
  fun_induction cut mark due seen cs generalizing before after with
  | case1 => simp_all
  | case2 => simp at h
  | case3 due dues seen cs ih =>
    have := ih h
    simp only [List.length_cons]
    omega
  | case4 due dues seen c cs hc ih =>
    obtain ⟨⟨b, a⟩, hcut, heq⟩ := Option.map_eq_some_iff.1 h
    have := ih hcut
    simp only [Prod.mk.injEq] at heq
    simp only [List.length_cons, ← heq.2]
    omega

/-- A whole mark is taken off. -/
theorem cut_length_lt {mark seen cs before after : List Char} {d : Char} {dues : List Char}
    (h : cut mark (d :: dues) seen cs = some (before, after)) : after.length < cs.length := by
  cases cs with
  | nil => simp [cut] at h
  | cons c cs =>
    simp only [cut] at h
    split at h
    · have := cut_length_le h
      simp only [List.length_cons]
      omega
    · obtain ⟨⟨b, a⟩, hcut, heq⟩ := Option.map_eq_some_iff.1 h
      have := cut_length_le hcut
      simp only [Prod.mk.injEq] at heq
      simp only [List.length_cons, ← heq.2]
      omega

def isFramingBlank (c : Char) : Bool := c = ' ' || c = '\t' || c = '\n' || c = '\r'

/-- A block as found in a text, not yet decoded. -/
structure Frame where
  opening : List Char
  headers : List Char
  data : List Char
  closing : List Char

def splitHeaders (payload : List Char) : List Char × List Char :=
  match cutAt "\n\n" payload with
  | some parts => parts
  | none =>
    match cutAt "\r\n\r\n" payload with
    | some parts => parts
    | none => ([], payload)

/-- The first block of a text and the text after it. -/
def nextFrame (cs : List Char) : Option (Frame × List Char) := do
  let (_, cs) ← cutAt "-----BEGIN " cs
  let (opening, cs) ← cutAt "-----" cs
  let (payload, cs) ← cutAt "-----END " (cs.dropWhile isFramingBlank)
  let (headers, data) := splitHeaders payload
  let (closing, cs) ← cutAt "-----" cs
  return (⟨opening, headers, data, closing⟩, cs.dropWhile isFramingBlank)

theorem nextFrame_length_lt {cs rest : List Char} {frame : Frame}
    (h : nextFrame cs = some (frame, rest)) : rest.length < cs.length := by
  simp only [nextFrame, Option.bind_eq_bind, Option.bind_eq_some_iff, Prod.exists, Option.pure_def,
    Option.some.injEq, Prod.mk.injEq] at h
  obtain ⟨_, cs₁, h₁, _, cs₂, h₂, _, cs₃, h₃, _, cs₄, h₄, _, hrest⟩ := h
  have l₁ : cs₁.length < cs.length := cut_length_lt h₁
  have l₂ := cut_length_le h₂
  have l₃ := cut_length_le h₃
  have l₄ := cut_length_le h₄
  have d₂ : (cs₂.dropWhile isFramingBlank).length ≤ cs₂.length :=
    (List.dropWhile_sublist _).length_le
  have d₄ : (cs₄.dropWhile isFramingBlank).length ≤ cs₄.length :=
    (List.dropWhile_sublist _).length_le
  rw [← hrest]
  omega

def lines (cs : List Char) : List String :=
  let pieces := Text.split '\n' cs
  let kept := if pieces.getLast? = some [] then pieces.dropLast else pieces
  kept.map fun line =>
    String.ofList (if line.getLast? = some '\r' then line.dropLast else line)

def decode (frame : Frame) : Except PemError Pem := do
  if frame.opening = [] then throw .missingBegin
  if frame.closing = [] then throw .missingEnd
  if frame.opening ≠ frame.closing then
    throw (.mismatch (String.ofList frame.opening) (String.ofList frame.closing))
  let data := frame.data.filter (!Text.isBlank ·)
  match Base64.decode .standard (data.flatMap Utf8.encodeChar) with
  | .error e => throw (.data e)
  | .ok contents =>
    match (lines frame.headers).find? fun line => !line.toList.contains ':' with
    | some line => throw (.header line)
    | none => return ⟨String.ofList frame.opening, contents⟩

def parse (text : String) : Except PemError Pem :=
  match nextFrame text.toList with
  | none => .error .framing
  | some (frame, _) => decode frame

def parseAllFrom (cs : List Char) : Except PemError (List Pem) :=
  match _found : nextFrame cs with
  | none => .ok []
  | some (frame, rest) => do
    let pem ← decode frame
    return pem :: (← parseAllFrom rest)
termination_by cs.length
decreasing_by exact nextFrame_length_lt _found

/-- All blocks of a text. What is no whole block is passed over. -/
def parseAll (text : String) : Except PemError (List Pem) := parseAllFrom text.toList

def lineLength : Nat := 64

def wrap (symbols : List Char) : List Char :=
  if _long : lineLength < symbols.length then
    symbols.take lineLength ++ ['\r', '\n'] ++ wrap (symbols.drop lineLength)
  else if symbols.isEmpty then []
  else symbols ++ ['\r', '\n']
termination_by symbols.length
decreasing_by
  simp only [List.length_drop, lineLength] at _long ⊢
  omega

def print (pem : Pem) : String :=
  "-----BEGIN " ++ pem.tag ++ "-----\r\n" ++
    String.ofList (wrap (Base64.encode .standard pem.contents).toList) ++
    "-----END " ++ pem.tag ++ "-----\r\n"

end Pem

end Enrollment

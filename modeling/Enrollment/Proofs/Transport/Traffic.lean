import Enrollment.Proofs.Transport.NonceCredit

/-! # Traffic with a server

Any number of signed requests are under way at once and share one pool of nonces. They take their
steps in any order, a request that was given up takes none, and the server answers as it likes. No
nonce is sent more often than it came in.
-/

namespace Enrollment

open Procedure Transport

namespace Exchange

/-- Whether a call goes to the server, so that others may come before its answer. -/
def isRequest : Exchange → Bool
  | head _ | get _ | post _ _ => true
  | takeNonce | keepNonce _ | warn _ => false

/-- The reply of the server as the answer to a request. -/
def ofReply? (reply : Http.Reply) : (c : Exchange) → Option c.Answer
  | head _ | get _ | post _ _ => some reply
  | takeNonce | keepNonce _ | warn _ => none

/-- The answer to a call that does not go to the server, and the pool after it. -/
def onPool? (pool : NoncePool) : (c : Exchange) → Option (c.Answer × NoncePool)
  | takeNonce =>
    match pool.take? with
    | some (nonce, rest) => some (some nonce, rest)
    | none => some (none, pool)
  | keepNonce nonce => some ((), pool.put nonce)
  | warn _ => some ((), pool)
  | head _ | get _ | post _ _ => none

end Exchange

/-- A signed request that is under way: how it goes on, and whether its next call was sent. -/
structure Transit where
  rest : Talk (Except TransportError Http.Response)
  sent : Bool

/-- What is seen of the traffic from outside. -/
inductive TrafficEvent where
  | sent (c : Exchange)
  | replied (c : Exchange) (reply : Http.Reply)
  | saved (text : String)

namespace TrafficEvent

/-- Whether a POST with the given nonce is sent. -/
def carries (value : String) : TrafficEvent → Bool
  | sent (.post _ envelope) => envelope.nonce? = some value
  | sent _ | replied _ _ | saved _ => false

/-- Whether the given nonce comes in, with a reply or from a user of the pool. -/
def delivers (value : String) : TrafficEvent → Bool
  | replied (.head _) reply | replied (.post _ _) reply => reply.nonce? = some ⟨value⟩
  | saved text => (ReplayNonce.parse text).toOption = some ⟨value⟩
  | replied _ _ | sent _ => false

end TrafficEvent

structure Traffic where
  pool : NoncePool
  transits : List Transit
  log : List TrafficEvent

namespace Traffic

open Exchange ReplayNonce TrafficEvent

def start : Traffic := ⟨.empty, [], []⟩

/-- One step of the traffic. -/
inductive Step (newNonce : Url) (s : Traffic) : Traffic → Prop where
  | begin (request : Request) :
    Step newNonce s { s with transits := s.transits ++ [⟨postRequest newNonce request, false⟩] }
  | turn {i : Nat} {c : Exchange} {next : c.Answer → Talk (Except TransportError Http.Response)}
    {answer : c.Answer} {pool : NoncePool} (found : s.transits[i]? = some ⟨.call c next, false⟩)
    (hAnswer : c.onPool? s.pool = some (answer, pool)) :
    Step newNonce s { s with pool, transits := s.transits.set i ⟨next answer, false⟩ }
  | send {i : Nat} {c : Exchange} {next : c.Answer → Talk (Except TransportError Http.Response)}
    (found : s.transits[i]? = some ⟨.call c next, false⟩) (hRequest : c.isRequest = true) :
    Step newNonce s
      { s with transits := s.transits.set i ⟨.call c next, true⟩, log := s.log ++ [.sent c] }
  | reply {i : Nat} {c : Exchange} {next : c.Answer → Talk (Except TransportError Http.Response)}
    {reply : Http.Reply} {answer : c.Answer} (found : s.transits[i]? = some ⟨.call c next, true⟩)
    (hAnswer : c.ofReply? reply = some answer) :
    Step newNonce s
      { s with
        transits := s.transits.set i ⟨next answer, false⟩
        log := s.log ++ [.replied c reply] }
  | save {text : String} {nonce : ReplayNonce} {pool : NoncePool}
    (hSave : s.pool.save text = .ok (nonce, pool)) :
    Step newNonce s { s with pool, log := s.log ++ [.saved text] }

inductive Reachable (newNonce : Url) : Traffic → Prop where
  | start : Reachable newNonce start
  | step {s t : Traffic} : Reachable newNonce s → Step newNonce s t → Reachable newNonce t

/-- How much of a value a request under way may count on. -/
def Holds (value : String) (credit : Nat) : Transit → Prop
  | ⟨p, false⟩ => p.Affords (tariff value) (fun _ _ => True) credit
  | ⟨.call c next, true⟩ => ∀ answer,
    (next answer).Affords (tariff value) (fun _ _ => True) (credit + gain value c answer)
  | ⟨.done _, true⟩ => False

/-- How much of a value all requests under way may count on together. -/
inductive Balanced (value : String) : List Transit → Nat → Prop where
  | nil : Balanced value [] 0
  | cons {t : Transit} {ts : List Transit} {credit total : Nat} :
    Holds value credit t → Balanced value ts total → Balanced value (t :: ts) (credit + total)

section

variable {value : String} {ts : List Transit} {t : Transit} {total : Nat}

theorem Balanced.append (h : Balanced value ts total) (hHolds : Holds value 0 t) :
    Balanced value (ts ++ [t]) total := by
  induction h with
  | nil => exact .cons hHolds .nil
  | cons hFirst _ ih => exact .cons hFirst ih

/-- What one request may count on can change without regard to the others. -/
theorem Balanced.exchange (h : Balanced value ts total) {i : Nat} (found : ts[i]? = some t) :
    ∃ credit others, total = credit + others ∧ Holds value credit t ∧
      ∀ credit' t', Holds value credit' t' → Balanced value (ts.set i t') (credit' + others) := by
  induction h generalizing i with
  | nil => cases found
  | @cons first ts credit total hFirst hRest ih =>
    cases i with
    | zero =>
      obtain rfl : first = t := Option.some.inj found
      exact ⟨credit, total, rfl, hFirst, fun _ _ hHolds => .cons hHolds hRest⟩
    | succ i =>
      obtain ⟨own, others, rfl, hHolds, hSet⟩ := ih found
      refine ⟨own, credit + others, by omega, hHolds, fun own' t' hHolds' => ?_⟩
      rw [Nat.add_left_comm]
      exact .cons hFirst (hSet own' t' hHolds')

end

end Traffic

namespace NoncePool

open ReplayNonce

variable {pool rest : NoncePool} {nonce : ReplayNonce}

/-- How often a value is at hand. -/
def count (pool : NoncePool) (value : String) : Nat := pool.nonces.countP (·.text = value)

theorem count_of_take? (h : pool.take? = some (nonce, rest)) (value : String) :
    pool.count value = rest.count value + worth value (some nonce) := by
  obtain ⟨capacity, nonces⟩ := pool
  cases nonces with
  | nil => cases h
  | cons first nonces =>
    cases h
    simp [count, worth, List.countP_cons]

/-- What the pool loses for a nonce, or a nonce that it has already, is not counted again. -/
theorem count_put_le (pool : NoncePool) (nonce : ReplayNonce) (value : String) :
    (pool.put nonce).count value ≤ pool.count value + worth value (some nonce) := by
  unfold put
  split
  · exact Nat.le_add_right _ _
  · have hDrop : (pool.nonces.drop 1).countP (·.text = value) ≤ pool.count value :=
      (List.drop_sublist 1 pool.nonces).countP_le
    have hKept : (if pool.size = pool.capacity then pool.nonces.drop 1
        else pool.nonces).countP (·.text = value) ≤ pool.count value := by
      split
      · exact hDrop
      · exact Nat.le_refl _
    simpa [count, worth, List.countP_append, List.countP_cons] using hKept

theorem of_save {text : String} (h : pool.save text = .ok (nonce, rest)) :
    ReplayNonce.parse text = .ok nonce ∧ rest = pool.put nonce := by
  unfold save at h
  cases hParse : ReplayNonce.parse text with
  | error e =>
    rw [hParse] at h
    cases h
  | ok parsed =>
    rw [hParse] at h
    cases h
    exact ⟨rfl, rfl⟩

/-- The pool gives out no more than it had, and what is put into it is paid for. -/
theorem count_onPool? {c : Exchange} {answer : c.Answer}
    (h : c.onPool? pool = some (answer, rest)) (value : String) :
    rest.count value + c.gain value answer ≤ pool.count value + c.price value := by
  cases c with
  | takeNonce =>
    simp only [Exchange.onPool?] at h
    split at h
    · next nonce left hTake =>
      cases h
      exact Nat.le_of_eq (count_of_take? hTake value).symm
    · cases h
      exact Nat.le_refl _
  | keepNonce nonce =>
    cases h
    exact count_put_le pool nonce value
  | warn =>
    cases h
    exact Nat.le_refl _
  | head | get | post => cases h

end NoncePool

namespace Traffic

open Exchange ReplayNonce TrafficEvent

variable {value : String} {newNonce : Url} {s t : Traffic}

theorem worth_eq (value : String) (nonce? : Option ReplayNonce) :
    worth value nonce? = if nonce? = some ⟨value⟩ then 1 else 0 := by
  cases nonce? with
  | none => rfl
  | some nonce =>
    obtain ⟨text⟩ := nonce
    simp [worth]

theorem countP_sent {c : Exchange} (hRequest : c.isRequest = true) (log : List TrafficEvent) :
    (log ++ [sent c]).countP (carries value) = log.countP (carries value) + c.price value := by
  cases c with
  | head | get => simp [List.countP_append, carries, price]
  | post => simp [List.countP_append, List.countP_cons, carries, price]
  | takeNonce | keepNonce | warn => cases hRequest

theorem countP_replied {c : Exchange} {reply : Http.Reply} {answer : c.Answer}
    (hAnswer : c.ofReply? reply = some answer) (log : List TrafficEvent) :
    (log ++ [replied c reply]).countP (delivers value) =
      log.countP (delivers value) + c.gain value answer := by
  cases c with
  | head | post =>
    cases hAnswer
    simp [List.countP_append, List.countP_cons, delivers, gain, worth_eq]
  | get =>
    cases hAnswer
    simp [List.countP_append, delivers, gain]
  | takeNonce | keepNonce | warn => cases hAnswer

theorem countP_saved {text : String} {nonce : ReplayNonce}
    (hParse : ReplayNonce.parse text = .ok nonce) (log : List TrafficEvent) :
    (log ++ [saved text]).countP (delivers value) =
      log.countP (delivers value) + worth value (some nonce) := by
  simp [List.countP_append, List.countP_cons, delivers, worth_eq, hParse, Except.toOption]

/-- All requests under way, the pool and what was sent live on what came in. -/
structure Solvent (value : String) (s : Traffic) : Prop where
  signed : ∀ c, .sent c ∈ s.log → c.IsSigned
  funds : ∃ total, Balanced value s.transits total ∧
    s.log.countP (carries value) + total + s.pool.count value ≤ s.log.countP (delivers value)

theorem Solvent.start (value : String) : Solvent value start where
  signed _ hSent := absurd hSent List.not_mem_nil
  funds := ⟨0, .nil, Nat.le_refl 0⟩

theorem signed_append {log : List TrafficEvent} {e : TrafficEvent}
    (h : ∀ c, sent c ∈ log → c.IsSigned) (hLast : ∀ c, sent c = e → c.IsSigned) :
    ∀ c, sent c ∈ log ++ [e] → c.IsSigned := by
  intro c hSent
  rcases List.mem_append.mp hSent with hOld | hNew
  · exact h c hOld
  · exact hLast c (List.mem_singleton.mp hNew)

theorem Solvent.step (h : Solvent value s) (hStep : Step newNonce s t) : Solvent value t := by
  obtain ⟨total, hBalanced, hFunds⟩ := h.funds
  cases hStep with
  | begin request =>
    exact ⟨h.signed, total, hBalanced.append (affords_postRequest newNonce request), hFunds⟩
  | @turn i c next answer pool found hAnswer =>
    obtain ⟨credit, others, rfl, ⟨hAllows, hPrice, hNext⟩, hSet⟩ := hBalanced.exchange found
    have hPool := NoncePool.count_onPool? hAnswer value
    refine ⟨h.signed, _, hSet _ ⟨next answer, false⟩ (hNext answer), ?_⟩
    have hPaid : c.price value ≤ credit := hPrice
    show s.log.countP (carries value) + (credit - c.price value + c.gain value answer + others) +
      pool.count value ≤ s.log.countP (delivers value)
    omega
  | @send i c next found hRequest =>
    obtain ⟨credit, others, rfl, ⟨hAllows, hPrice, hNext⟩, hSet⟩ := hBalanced.exchange found
    have hPaid : c.price value ≤ credit := hPrice
    refine ⟨?_, _, hSet _ ⟨.call c next, true⟩ hNext, ?_⟩
    · refine signed_append h.signed ?_
      rintro _ ⟨⟩
      exact hAllows
    · show (s.log ++ [sent c]).countP (carries value) + (credit - c.price value + others) +
        s.pool.count value ≤ (s.log ++ [sent c]).countP (delivers value)
      rw [countP_sent hRequest, List.countP_append]
      omega
  | @reply i c next reply answer found hAnswer =>
    obtain ⟨credit, others, rfl, hHolds, hSet⟩ := hBalanced.exchange found
    have hSigned := signed_append (e := replied c reply) h.signed (by rintro _ ⟨⟩)
    refine ⟨hSigned, _, hSet _ ⟨next answer, false⟩ (hHolds answer), ?_⟩
    show (s.log ++ [replied c reply]).countP (carries value) +
      (credit + c.gain value answer + others) + s.pool.count value ≤
        (s.log ++ [replied c reply]).countP (delivers value)
    rw [countP_replied hAnswer, List.countP_append]
    simp only [List.countP_singleton, carries, Bool.false_eq_true, if_false]
    omega
  | @save text nonce pool hSave =>
    obtain ⟨hParse, rfl⟩ := NoncePool.of_save hSave
    have hPut := NoncePool.count_put_le s.pool nonce value
    have hSigned := signed_append (e := saved text) h.signed (by rintro _ ⟨⟩)
    refine ⟨hSigned, total, hBalanced, ?_⟩
    show (s.log ++ [saved text]).countP (carries value) + total +
      (s.pool.put nonce).count value ≤ (s.log ++ [saved text]).countP (delivers value)
    rw [countP_saved hParse, List.countP_append]
    simp only [List.countP_singleton, carries, Bool.false_eq_true, if_false]
    omega

theorem Reachable.solvent (h : Reachable newNonce s) (value : String) : Solvent value s := by
  induction h with
  | start => exact .start value
  | step _ hStep ih => exact ih.step hStep

theorem exists_post (newNonce : Url) (request : Request) {reply : Http.Reply} {nonce : ReplayNonce}
    {envelope : Envelope} (hReply : ofReply (nonceReply reply) = .ok nonce)
    (hSign : request.key.sign request.payload nonce request.url = .ok envelope) :
    ∃ ask next, postRequest newNonce request = .call takeNonce ask ∧
      ask none = .call (head newNonce) next ∧
      ∃ rest, next reply = .call (post request.url envelope) rest := by
  refine ⟨_, _, rfl, rfl, ?_⟩
  show ∃ rest, Procedure.bind (Procedure.bind (.done (ofReply (nonceReply reply))) _) _ =
    .call (post request.url envelope) rest
  rw [hReply]
  show ∃ rest, Procedure.bind (sendWith request nonce) _ = .call (post request.url envelope) rest
  rw [sendWith, hSign]
  exact ⟨_, rfl⟩

/-- A request that finds the pool empty asks for a nonce and is sent with it. -/
theorem Reachable.first (newNonce : Url) (request : Request) {reply : Http.Reply}
    {nonce : ReplayNonce} {envelope : Envelope} (hReply : ofReply (nonceReply reply) = .ok nonce)
    (hSign : request.key.sign request.payload nonce request.url = .ok envelope) :
    ∃ s, Reachable newNonce s ∧ s.log = [sent (head newNonce), replied (head newNonce) reply,
      sent (post request.url envelope)] := by
  obtain ⟨ask, next, hTake, hAsk, rest, hPost⟩ := exists_post newNonce request hReply hSign
  have hEmpty : takeNonce.onPool? .empty = some (none, .empty) := rfl
  have hReplied : (head newNonce).ofReply? reply = some reply := rfl
  have begun : Reachable newNonce _ := start.step (.begin request)
  rw [hTake] at begun
  have taken := begun.step (.turn (i := 0) rfl hEmpty)
  rw [hAsk] at taken
  have asked := taken.step (.send (i := 0) (c := head newNonce) rfl rfl)
  have answered := asked.step (.reply (i := 0) rfl hReplied)
  rw [hPost] at answered
  have posted := answered.step (.send (i := 0) (c := post request.url envelope) rfl rfl)
  exact ⟨_, posted, rfl⟩

/-- No nonce is used more often than it came in. -/
structure Conserved (log : List TrafficEvent) : Prop where
  signed : ∀ url envelope, .sent (.post url envelope) ∈ log →
    ∃ value, envelope.nonce? = some value
  bounded : ∀ value, log.countP (carries value) ≤ log.countP (delivers value)
  distinct : (∀ value, log.countP (delivers value) ≤ 1) →
    ∀ before between after url url' envelope envelope',
      log = before ++ .sent (.post url envelope) ::
        (between ++ .sent (.post url' envelope') :: after) →
      envelope.nonce? ≠ envelope'.nonce?

theorem Reachable.conserved (h : Reachable newNonce s) : Conserved s.log where
  signed url envelope hSent := (h.solvent "").signed _ hSent
  bounded value := by
    obtain ⟨total, -, hFunds⟩ := (h.solvent value).funds
    omega
  distinct hOnce before between after url url' envelope envelope' hLog hSame := by
    have hSent : .sent (.post url envelope) ∈ s.log := by
      rw [hLog]
      exact List.mem_append_right _ List.mem_cons_self
    obtain ⟨value, hValue⟩ := (h.solvent "").signed _ hSent
    obtain ⟨total, -, hFunds⟩ := (h.solvent value).funds
    have hTwice : 2 ≤ s.log.countP (carries value) := by
      rw [hLog]
      simp only [List.countP_append, List.countP_cons, carries, ← hSame, hValue, decide_true,
        if_true]
      omega
    have := hOnce value
    omega

/-- The response to a question for a nonce. -/
def nonceResponse : Http.Response :=
  ⟨⟨200⟩, [("replay-nonce", Utf8.encode "AA")], []⟩

theorem conserved_of_first_post :
    ∃ newNonce s envelope, Reachable newNonce s ∧
      .sent (.post AccountKey.shortUrl envelope) ∈ s.log ∧ Conserved s.log := by
  obtain ⟨envelope, hSign⟩ := AccountKey.exists_sign_short
  have hReply : ofReply (nonceReply (.ok nonceResponse)) = .ok ⟨"AA"⟩ := rfl
  obtain ⟨s, reachable, hLog⟩ := Reachable.first AccountKey.shortUrl
    ⟨AccountKey.shortUrl, [], .short⟩ hReply hSign
  refine ⟨_, s, envelope, reachable, ?_, Reachable.conserved reachable⟩
  rw [hLog]
  exact List.mem_cons_of_mem _ (List.mem_cons_of_mem _ List.mem_cons_self)

end Traffic

end Enrollment

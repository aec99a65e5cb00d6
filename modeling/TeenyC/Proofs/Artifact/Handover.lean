import TeenyC.Artifact
import TeenyC.Proofs.Text.Bytes

/-
  What calls write to an artifact, and what a receiver of limited
  room gets of it.

  Lines of the header stay apart from the text of the body, so the
  finished text does not tell how the calls were mixed. A receiver
  may take the bytes in portions of any sizes; it gets those that
  it has room for, from the first one on, and the artifact learns
  whether these were all.

  Key definitions include:
    * `Artifact.Call`
    * `Artifact.ofCalls`
    * `Sink.deliver`
    * `Artifact.deliverTo`

  Key theorems include:
    * `Artifact.header_performAll`
    * `Artifact.body_performAll`
    * `Sink.accept_append`
    * `Sink.deliver_eq_accept`
    * `Artifact.writeTo_eq_accept`
    * `Artifact.handover_of_calls`
-/

namespace TeenyC

------------------------------------------------------------
-- Calls
------------------------------------------------------------

namespace Artifact

/- The calls that add to an artifact. -/
inductive Call where
| emit (text : String)
| emitLine (text : String)
| headerLine (text : String)
deriving DecidableEq

namespace Call

/- The artifact after a call. -/
def perform (a : Artifact) : Call → Artifact
| .emit text => a.emit text
| .emitLine text => a.emitLine text
| .headerLine text => a.headerLine text

/- The call adds to the header, and not to the body. -/
def isHeader : Call → Bool
| .headerLine _ => true
| .emit _ | .emitLine _ => false

/- What a call adds, with the line break if it is a line. -/
def added : Call → String
| .emit text => text
| .emitLine text | .headerLine text => text ++ "\n"

/- A call adds to the header what is meant for it. -/
theorem header_perform
    (a : Artifact)
    (call : Call) :
    (perform a call).header =
      a.header ++ if call.isHeader then call.added else "" := by
  cases call <;>
    simp [perform, Artifact.emit, Artifact.emitLine,
      Artifact.headerLine, isHeader, added, String.append_assoc]

/- A call adds to the body what is not meant for the header. -/
theorem body_perform
    (a : Artifact)
    (call : Call) :
    (perform a call).body =
      a.body ++ if call.isHeader then "" else call.added := by
  cases call <;>
    simp [perform, Artifact.emit, Artifact.emitLine,
      Artifact.headerLine, isHeader, added, String.append_assoc]

/- What calls add, one after the other. -/
def addedBy (calls : List Call) : String :=
  String.join (calls.map added)

theorem addedBy_cons
    (call : Call)
    (calls : List Call) :
    addedBy (call :: calls) = call.added ++ addedBy calls := by
  simp [addedBy]

/- The calls that add to the header, in their order. -/
def toHeader (calls : List Call) : List Call :=
  calls.filter (·.isHeader)

/- The calls that add to the body, in their order. -/
def toBody (calls : List Call) : List Call :=
  calls.filter (!·.isHeader)

end Call

/- The artifact after calls, one after the other. -/
def performAll
    (a : Artifact)
    (calls : List Call) : Artifact :=
  calls.foldl Call.perform a

/- The artifact that calls make out of nothing. -/
def ofCalls (calls : List Call) : Artifact :=
  empty.performAll calls

/- The header grows by what the calls to it add. -/
theorem header_performAll
    (a : Artifact)
    (calls : List Call) :
    (a.performAll calls).header =
      a.header ++ Call.addedBy (Call.toHeader calls) := by
  induction calls generalizing a with
  | nil => simp [performAll, Call.toHeader, Call.addedBy]
  | cons call calls ih =>
      change ((Call.perform a call).performAll calls).header = _
      rw [ih, Call.header_perform, String.append_assoc]
      cases hHeader : call.isHeader <;>
        simp [Call.toHeader, hHeader, Call.addedBy_cons]

/- The body grows by what the calls to it add. -/
theorem body_performAll
    (a : Artifact)
    (calls : List Call) :
    (a.performAll calls).body =
      a.body ++ Call.addedBy (Call.toBody calls) := by
  induction calls generalizing a with
  | nil => simp [performAll, Call.toBody, Call.addedBy]
  | cons call calls ih =>
      change ((Call.perform a call).performAll calls).body = _
      rw [ih, Call.body_perform, String.append_assoc]
      cases hHeader : call.isHeader <;>
        simp [Call.toBody, hHeader, Call.addedBy_cons]

/- All that was added to the header stands before the body. -/
theorem output_ofCalls (calls : List Call) :
    (ofCalls calls).output =
      Call.addedBy (Call.toHeader calls) ++
        Call.addedBy (Call.toBody calls) := by
  simp [output, ofCalls, header_performAll, body_performAll, empty]

end Artifact

------------------------------------------------------------
-- Sinks
------------------------------------------------------------

namespace Sink

variable {s : Sink}
variable {bytes : List UInt8}

/- A sink without limits takes everything. -/
theorem accept_of_unlimited
    (hRoom : s.room = none)
    (bytes : List UInt8) :
    s.accept bytes =
      (true, { taken := s.taken ++ bytes, room := none }) := by
  simp [accept, hRoom]

/- A sink takes what there is room for, from the first byte on. -/
theorem accept_of_limited
    {room : Nat}
    (hRoom : s.room = some room)
    (bytes : List UInt8) :
    s.accept bytes =
      (decide (bytes.length ≤ room),
        { taken := s.taken ++ bytes.take room
          room := some (room - bytes.length) }) := by
  simp [accept, hRoom]

/- It takes nothing to hand over nothing. -/
theorem accept_nil (s : Sink) : s.accept [] = (true, s) := by
  rcases s with ⟨taken, - | room⟩ <;> simp [accept]

/-
  Bytes are handed over as two parts are, the second of which is
  offered if the first was taken.
-/
theorem accept_append
    (s : Sink)
    (first more : List UInt8) :
    s.accept (first ++ more) =
      match s.accept first with
      | (true, later) => later.accept more
      | (false, later) => (false, later) := by
  rcases s with ⟨taken, - | room⟩
  · simp [accept]
  · by_cases hFits : first.length ≤ room
    · have hRest :
          first.length + more.length ≤ room ↔
            more.length ≤ room - first.length := by
        omega
      simp only [accept, hFits, decide_true]
      rw [List.take_append, List.take_of_length_le hFits,
        List.append_assoc, List.length_append, Nat.sub_add_eq,
        decide_eq_decide.mpr hRest]
    · have hRest : ¬ first.length + more.length ≤ room := by
        omega
      have hRoom :
          room - (first.length + more.length) =
            room - first.length := by
        omega
      simp only [accept, hFits, decide_false]
      rw [List.take_append_of_le_length (by omega),
        List.length_append, decide_eq_false hRest, hRoom]

/- What follows bytes that are taken goes to the sink after them. -/
theorem accept_append_of_taken
    {first more : List UInt8}
    (hFirst : (s.accept first).1 = true) :
    s.accept (first ++ more) =
      (s.accept first).2.accept more := by
  rw [accept_append]
  split
  · next hTaken => rw [hTaken]
  · next hRefused =>
    rw [hRefused] at hFirst
    cases hFirst

------------------------------------------------------------
-- Portions
------------------------------------------------------------

/-
  How many bytes a sink takes of those on offer: as many as it is
  inclined to and there is room for, and at least one if it can.
-/
def portion
    (inclination : Sink → List UInt8 → Nat)
    (s : Sink)
    (bytes : List UInt8) : Nat :=
  match s.room with
  | none => min (max 1 (inclination s bytes)) bytes.length
  | some room =>
      min (max 1 (inclination s bytes)) (min bytes.length room)

variable {inclination : Sink → List UInt8 → Nat}

/- A portion is taken as it is. -/
theorem accept_portion
    (inclination : Sink → List UInt8 → Nat)
    (s : Sink)
    (bytes : List UInt8) :
    (s.accept (bytes.take (s.portion inclination bytes))).1 =
      true := by
  rcases s with ⟨taken, - | room⟩
  · rfl
  · simp only [accept, portion, List.length_take,
      decide_eq_true_eq]
    omega

/- A sink that takes none of some bytes has no room left. -/
theorem room_of_portion_eq_zero
    (hSome : bytes ≠ [])
    (hNone : s.portion inclination bytes = 0) :
    s.room = some 0 := by
  have hLength := List.length_pos_iff.mpr hSome
  unfold portion at hNone
  split at hNone
  · omega
  · next hRoom =>
    rw [hRoom]
    congr 1
    omega

/-
  Hand over bytes in portions, and tell whether all of them were
  taken. The bytes behind a portion are offered next, until there
  are none, or the sink takes none of them. A sink that has taken
  a portion is not the same as before, so it may be inclined to
  take another number of bytes each time.
-/
def deliver
    (inclination : Sink → List UInt8 → Nat)
    (s : Sink)
    (bytes : List UInt8) : Bool × Sink :=
  if bytes = [] then (true, s)
  else if s.portion inclination bytes = 0 then (false, s)
  else
    deliver inclination
      (s.accept (bytes.take (s.portion inclination bytes))).2
      (bytes.drop (s.portion inclination bytes))
termination_by bytes.length
decreasing_by
  next hEnd hCount =>
  have hLength := List.length_pos_iff.mpr hEnd
  rw [List.length_drop]
  omega

/- The sizes of the portions do not matter. -/
theorem deliver_eq_accept
    (inclination : Sink → List UInt8 → Nat)
    (s : Sink)
    (bytes : List UInt8) :
    s.deliver inclination bytes = s.accept bytes := by
  fun_induction deliver inclination s bytes with
  | case1 s => rw [accept_nil]
  | case2 s bytes hSome hNone =>
      have hRoom := room_of_portion_eq_zero hSome hNone
      rw [accept_of_limited hRoom]
      simp [hSome, ← hRoom]
  | case3 s bytes hSome hCount ih =>
      rw [ih, ← accept_append_of_taken (accept_portion _ s bytes),
        List.take_append_drop]

end Sink

------------------------------------------------------------
-- Artifacts Handed Over
------------------------------------------------------------

namespace Artifact

/- Hand over the header in portions, and then the body. -/
def deliverTo
    (inclination : Sink → List UInt8 → Nat)
    (a : Artifact)
    (sink : Sink) : Bool × Sink :=
  match sink.deliver inclination (Text.encode a.header.toList) with
  | (true, later) =>
      later.deliver inclination (Text.encode a.body.toList)
  | (false, later) => (false, later)

/- The two parts are handed over as the finished text is. -/
theorem writeTo_eq_accept
    (a : Artifact)
    (sink : Sink) :
    a.writeTo sink =
      sink.accept (Text.encode a.output.toList) := by
  rw [output, String.toList_append, Text.encode_append,
    Sink.accept_append]
  rfl

/- In portions or at once, the same bytes are handed over. -/
theorem deliverTo_eq_writeTo
    (inclination : Sink → List UInt8 → Nat)
    (a : Artifact)
    (sink : Sink) :
    a.deliverTo inclination sink = a.writeTo sink := by
  simp only [deliverTo, Sink.deliver_eq_accept]
  rfl

/-
  The text of any calls is what they add to the header and then
  what they add to the body, each in the order of the calls. A
  receiver with room for a number of bytes, in portions as it is
  inclined to take them, gets as many of the first bytes of that
  text, and all of them if and only if they are no more.
-/
theorem handover_of_calls
    (calls : List Call)
    (inclination : Sink → List UInt8 → Nat)
    (room : Nat) :
    (ofCalls calls).output =
        Call.addedBy (Call.toHeader calls) ++
          Call.addedBy (Call.toBody calls) ∧
      (ofCalls calls).deliverTo inclination
            (Sink.fresh (some room)) =
          (ofCalls calls).writeTo (Sink.fresh (some room)) ∧
        ((ofCalls calls).writeTo
              (Sink.fresh (some room))).2.taken =
            (Text.encode (ofCalls calls).output.toList).take
              room ∧
          (((ofCalls calls).writeTo
                (Sink.fresh (some room))).1 = true ↔
            (Text.encode (ofCalls calls).output.toList).length ≤
              room) := by
  refine ⟨output_ofCalls calls, deliverTo_eq_writeTo _ _ _, ?_⟩
  rw [writeTo_eq_accept, Sink.accept_of_limited rfl]
  exact ⟨List.nil_append _, decide_eq_true_iff⟩

/- The room may end in the middle of a character. -/
example :
    (ofCalls [.emit "é", .headerLine "h", .emit "a"]).writeTo
        (Sink.fresh (some 3)) =
      (false, { taken := [104, 10, 195], room := some 0 }) := by
  decide

end Artifact

end TeenyC

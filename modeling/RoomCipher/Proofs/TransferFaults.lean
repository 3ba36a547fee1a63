import RoomCipher.Proofs.ChannelRuns
import RoomCipher.Proofs.Outcomes
import RoomCipher.Proofs.StreamPieces
import RoomCipher.Stream.Transfer

/-! Transfers in which something goes wrong. A transfer hands on the pieces it is given
one after the other, and writes out what comes of each before it asks for the next.
So whatever fails, and whenever it fails, the writer has received the front of what
it would have received in the end, and the transfer succeeds only if nothing failed. -/
namespace RoomCipher.TransferFaults
open Transfer StreamPieces ChannelRuns

variable {S : Type} {update : S → Bytes → S × Except Error Bytes}

/-- Hands pieces on one after the other and writes out what comes of each. -/
def deliver (update : S → Bytes → S × Except Error Bytes) :
    S → Writer → Nat → List Bytes → S × Transfer
  | state, writer, written, [] => (state, ⟨writer, .ok written⟩)
  | state, writer, written, piece :: rest =>
    match update state piece with
    | (next, .error e) => (next, ⟨writer, .error e⟩)
    | (next, .ok out) =>
      match writer.writeAll out with
      | (stop, .error fault) => (next, ⟨stop, .error (.io fault)⟩)
      | (stop, .ok ()) => deliver update next stop (written + out.length) rest

/-- A transfer whose reader fails after all the pieces. -/
def failing (transfer : Transfer) : Option IoFault → Transfer
  | none => transfer
  | some fault => { transfer with result := transfer.result.bind fun _ => .error (.io fault) }

theorem failing_error (writer : Writer) (e : Error) (failure : Option IoFault) :
    failing ⟨writer, .error e⟩ failure = ⟨writer, .error e⟩ := by
  cases failure <;> rfl

/-- A transfer asks for a piece, and goes on from what comes of it. -/
theorem pump_step (limit : Nat) (state : S) (writer : Writer) (written : Nat) (reader : Reader) :
    pump update limit state writer written reader =
      match reader.readSome limit with
      | (.error fault, _) => (state, ⟨writer, .error (.io fault)⟩)
      | (.ok [], _) => (state, ⟨writer, .ok written⟩)
      | (.ok (b :: bs), rest) =>
        match update state (b :: bs) with
        | (next, .error e) => (next, ⟨writer, .error e⟩)
        | (next, .ok out) =>
          match writer.writeAll out with
          | (stop, .error fault) => (next, ⟨stop, .error (.io fault)⟩)
          | (stop, .ok ()) => pump update limit next stop (written + out.length) rest := by
  rw [pump]
  split <;> next answer =>
    generalize reader.readSome limit = given at answer ⊢
    subst answer
    rfl

/-- A transfer sees nothing of a reader but the pieces and the fault that ends them. -/
theorem pump_reads (positive : 0 < limit) (state : S) (writer : Writer) (written : Nat)
    (reader : Reader) : pump update limit state writer written reader =
      ((deliver update state writer written (reads limit reader)).1,
        failing (deliver update state writer written (reads limit reader)).2 (failure? reader)) := by
  -- What does not fit a read stays in front, so events do not get fewer, but bytes do.
  induction size : reader.size using Nat.strongRecOn generalizing state writer written reader with
  | _ _ ih =>
    subst size
    have given := readSome_answer positive reader
    rw [pump_step]
    generalize answer : reader.readSome limit = result at given ⊢
    cases given with
    | failed fault rest pieces failure =>
      rw [pieces, failure]
      rfl
    | finished rest pieces failure =>
      rw [pieces, failure]
      rfl
    | piece data rest some_data pieces failure =>
      obtain ⟨b, bs, rfl⟩ := List.exists_cons_of_ne_nil some_data
      have less := Reader.size_readSome_lt answer some_data
      rw [pieces, failure, deliver]
      dsimp only
      generalize update state (b :: bs) = made
      obtain ⟨next, made⟩ := made
      cases made with
      | error e => simp only [failing_error]
      | ok out =>
        simp only
        generalize writer.writeAll out = wrote
        obtain ⟨stop, wrote⟩ := wrote
        cases wrote with
        | error fault => simp only [failing_error]
        | ok _ => exact ih _ less next stop (written + out.length) rest rfl

/-! ### Pieces and what is written of them -/

/-- What can come of handing on pieces that are all taken: what they come to is written, or a part
of it from the front. -/
inductive Delivered (last : S) (outs : Bytes) (writer : Writer) (written : Nat) :
    S × Transfer → Prop
  | all (stop : Writer) (wrote : Written writer outs (stop, .ok ())) :
    Delivered last outs writer written (last, ⟨stop, .ok (written + outs.length)⟩)
  | part (state : S) (stop : Writer) (fault : IoFault)
    (wrote : Written writer outs (stop, .error fault)) :
    Delivered last outs writer written (state, ⟨stop, .error (.io fault)⟩)

theorem deliver_delivered {pieces : List Bytes} {state last : S}
    (fed : feed update state pieces = .ok (last, outs)) (writer : Writer) (written : Nat) :
    Delivered last outs writer written (deliver update state writer written pieces) := by
  induction pieces generalizing state outs writer written with
  | nil =>
    cases fed
    exact .all writer (.nothing writer)
  | cons piece rest ih =>
    rw [feed] at fed
    rw [deliver]
    generalize update state piece = made at fed ⊢
    obtain ⟨next, made⟩ := made
    cases made with
    | error e => cases fed
    | ok out =>
      simp only [Outcomes.bind_eq_ok, Prod.exists] at fed
      obtain ⟨final, more, later, joined⟩ := fed
      cases joined
      have wrote := writeAll_written writer out
      simp only
      generalize writer.writeAll out = answer at wrote ⊢
      cases wrote with
      | part stop front fault stuck received inside =>
        refine .part next stop fault (.part stop front fault ?_ received ?_)
        · exact fun takes => stuck (takes_append.mp takes).1
        · exact inside.trans (List.prefix_append _ _)
      | all takes =>
        have rest_delivered := ih later (after writer out) (written + out.length)
        simp only
        generalize deliver update next (after writer out) (written + out.length) rest = result
          at rest_delivered ⊢
        cases rest_delivered with
        | all stop wrote =>
          have lengths : written + out.length + more.length = written + (out ++ more).length := by
            rw [List.length_append, Nat.add_assoc]
          rw [lengths]
          exact .all stop (wrote.continued takes)
        | part state stop fault wrote => exact .part state stop fault (wrote.continued takes)

/-! ### Whole transfers -/

/-- A transfer from the first piece to the end of the message. -/
def carry (update : S → Bytes → S × Except Error Bytes) (finalize : S → Except Error Bytes)
    (limit : Nat) (state : S) (reader : Reader) (writer : Writer) : Transfer :=
  let (last, transfer) := pump update limit state writer 0 reader
  transfer.finish (finalize last)

/-- All that a message comes to, piece by piece and at its end; a message that is refused at the
end adds nothing there. -/
def total (outs : Bytes) : Except Error Bytes → Bytes
  | .ok tail => outs ++ tail
  | .error _ => outs

/-- Whether nothing goes wrong that is not the fault of the message itself. -/
structure Smooth (reader : Reader) (writer : Writer) (data : Bytes) : Prop where
  calm : failure? reader = none
  takes : Takes writer data
  flushes : writer.failsFlush = false

/-- What can come of a transfer of a message that comes to `outs` and then to `ending`. -/
inductive Carried (reader : Reader) (writer : Writer) (outs : Bytes) (ending : Except Error Bytes) :
    Transfer → Prop
  | complete (tail : Bytes) (ended : ending = .ok tail)
    (smooth : Smooth reader writer (total outs ending)) :
    Carried reader writer outs ending
      ⟨after writer (total outs ending), .ok (total outs ending).length⟩
  | refused (e : Error) (ended : ending = .error e) (calm : failure? reader = none)
    (takes : Takes writer (total outs ending)) :
    Carried reader writer outs ending ⟨after writer (total outs ending), .error e⟩
  | broken (stop : Writer) (front : Bytes) (e : Error)
    (rough : ¬ Smooth reader writer (total outs ending))
    (received : stop.received = writer.received ++ front)
    (inside : front <+: total outs ending) :
    Carried reader writer outs ending ⟨stop, .error e⟩

theorem prefix_total (outs : Bytes) (ending : Except Error Bytes) : outs <+: total outs ending := by
  cases ending with
  | error e => exact List.prefix_refl outs
  | ok tail => exact List.prefix_append outs tail

theorem takes_front {writer : Writer} (inside : front <+: data) (takes : Takes writer data) :
    Takes writer front := by
  obtain ⟨back, rfl⟩ := inside
  exact (takes_append.mp takes).1

/-- The end of a transfer whose pieces have all been written. -/
theorem finish_carried {reader : Reader} {writer : Writer} (calm : failure? reader = none)
    (takes : Takes writer outs) (ending : Except Error Bytes) :
    Carried reader writer outs ending
      (finish ⟨after writer outs, .ok outs.length⟩ ending) := by
  cases ending with
  | error e => exact .refused e rfl calm takes
  | ok tail =>
    have wrote := writeAll_written (after writer outs) tail
    simp only [finish]
    generalize (after writer outs).writeAll tail = answer at wrote ⊢
    cases wrote with
    | part stop front fault stuck received inside =>
      refine .broken stop (outs ++ front) _ ?_ ?_ ?_
      · exact fun smooth => stuck (takes_append.mp smooth.takes).2
      · rw [received, after, List.append_assoc]
      · exact (List.prefix_append_right_inj outs).mpr inside
    | all more =>
      have whole := takes_append.mpr ⟨takes, more⟩
      rw [after_append, ← List.length_append]
      cases flushed : writer.failsFlush with
      | true =>
        have fails : (after writer (outs ++ tail)).flush = .error ⟨.other, "flush failed"⟩ :=
          if_pos flushed
        simp only [fails]
        refine .broken _ (outs ++ tail) _ (fun smooth => ?_) rfl (List.prefix_refl _)
        cases flushed.symm.trans smooth.flushes
      | false =>
        have flushes : (after writer (outs ++ tail)).flush = .ok () :=
          if_neg (Bool.eq_false_iff.mp flushed)
        simp only [flushes]
        exact .complete tail rfl ⟨calm, whole, flushed⟩

/-- A transfer of pieces that are all taken. The pieces are those that the reader would give if it
did not fail. -/
theorem carry_carried (positive : 0 < limit) {state last : S} {reader : Reader}
    (fed : feed update state (reads limit (withoutFaults reader)) = .ok (last, outs))
    (finalize : S → Except Error Bytes) (writer : Writer) :
    Carried reader writer outs (finalize last)
      (carry update finalize limit state reader writer) := by
  obtain ⟨shorter, same⟩ := reads_withoutFaults limit reader
  rw [carry, pump_reads positive]
  cases failure : failure? reader with
  | some fault =>
    -- The reader gives up after some of the pieces, and what comes of these is the front of it all.
    have rough : ¬ Smooth reader writer (total outs (finalize last)) := by
      intro smooth
      cases failure.symm.trans smooth.calm
    obtain ⟨back, whole⟩ := shorter
    rw [← whole, feed_append] at fed
    simp only [Outcomes.bind_eq_ok, Prod.exists] at fed
    obtain ⟨middle, some_out, fed, final, more, _, joined⟩ := fed
    cases joined
    have delivered := deliver_delivered fed writer 0
    generalize deliver update state writer 0 (reads limit reader) = result at delivered ⊢
    have inside : some_out <+: total (some_out ++ more) (finalize last) :=
      (List.prefix_append some_out more).trans (prefix_total _ _)
    cases delivered with
    | all stop wrote =>
      cases wrote with
      | all takes => exact .broken _ some_out _ rough rfl inside
    | part reached stop fault' wrote =>
      cases wrote with
      | part _ front _ stuck received within =>
        exact .broken stop front _ rough received (within.trans inside)
  | none =>
    -- All the pieces come, so that only the writer or the end of the message can fail.
    rw [same failure]
    have delivered := deliver_delivered fed writer 0
    generalize deliver update state writer 0 (reads limit (withoutFaults reader)) = result
      at delivered ⊢
    cases delivered with
    | part reached stop fault wrote =>
      cases wrote with
      | part _ front _ stuck received within =>
        refine .broken stop front _ ?_ received (within.trans (prefix_total _ _))
        exact fun smooth => stuck (takes_front (prefix_total _ _) smooth.takes)
    | all stop wrote =>
      cases wrote with
      | all takes =>
        rw [Nat.zero_add]
        exact finish_carried failure takes (finalize last)

/-! ### Against the transfer without faults -/

theorem not_succeeded (writer : Writer) (e : Error) :
    ¬ ∃ count, (⟨writer, .error e⟩ : Transfer).result = .ok count :=
  fun ⟨_, succeeded⟩ => nomatch succeeded

/-- How a transfer compares to the one of the same data without faults, into a writer that takes
everything. -/
structure Faithful (reader : Reader) (writer : Writer) (clean actual : Transfer) : Prop where
  delivered : ∃ front, actual.writer.received = writer.received ++ front ∧
    front <+: clean.writer.received
  succeeds_iff : (∃ count, actual.result = .ok count) ↔
    (∃ count, clean.result = .ok count) ∧ Smooth reader writer clean.writer.received
  complete : ∀ count, actual.result = .ok count → count = clean.writer.received.length ∧
    actual.writer.received = writer.received ++ clean.writer.received

/-- A transfer that fails has to show a reason for it, and a part of what it should have written. -/
theorem Faithful.of_failed {reader : Reader} {writer stop : Writer} {clean : Transfer} {e : Error}
    (received : stop.received = writer.received ++ front) (inside : front <+: clean.writer.received)
    (reason : (∃ count, clean.result = .ok count) →
      ¬ Smooth reader writer clean.writer.received) :
    Faithful reader writer clean ⟨stop, .error e⟩ where
  delivered := ⟨front, received, inside⟩
  succeeds_iff := ⟨fun succeeded => absurd succeeded (not_succeeded stop e),
    fun ⟨succeeded, smooth⟩ => absurd smooth (reason succeeded)⟩
  complete count succeeded := absurd ⟨count, succeeded⟩ (not_succeeded stop e)

/-- A transfer that cannot begin is refused without faults as well. -/
theorem Faithful.untouched (reader : Reader) (writer : Writer) (e : Error) :
    Faithful reader writer ⟨.unlimited, .error e⟩ ⟨writer, .error e⟩ :=
  .of_failed (List.append_nil _).symm List.nil_prefix
    fun succeeded => absurd succeeded (not_succeeded .unlimited e)

end RoomCipher.TransferFaults

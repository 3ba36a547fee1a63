import RoomCipher.Proofs.ByteLaws
import RoomCipher.Stream.Channel

/-! What readers and writers come to. Seen from a caller that asks for a buffer at a
time, a reader is a list of pieces and perhaps a fault that ends it; faults that it
only passes on do not show. A writer takes what it has room for and stops there, in
the same place however its input is cut. -/
namespace RoomCipher.ChannelRuns
open ByteLaws Reader Writer

/-! ### Readers -/

/-- The same data without any fault. -/
def withoutFaults (reader : Reader) : Reader :=
  reader.filter fun
    | .bytes _ => true
    | .fault _ => false

/-- The fault that ends the input before it is over. An interruption does not, and an event without
bytes is the end of the input. -/
def failure? : Reader → Option IoFault
  | [] => none
  | .bytes data :: rest => if data = [] then none else failure? rest
  | .fault fault :: rest => if fault.kind = .interrupted then failure? rest else some fault

/-- The pieces that come of asking for `limit` bytes at a time, up to the end of the input or the
fault that ends it. -/
def reads (limit : Nat) : Reader → List Bytes
  | [] => []
  | .bytes data :: rest => if data = [] then [] else Bytes.pieces limit data ++ reads limit rest
  | .fault fault :: rest => if fault.kind = .interrupted then reads limit rest else []

/-- What one call for a piece can come to. -/
inductive Answer (limit : Nat) (reader : Reader) : Except IoFault Bytes × Reader → Prop
  | failed (fault : IoFault) (rest : Reader) (pieces : reads limit reader = [])
    (failure : failure? reader = some fault) : Answer limit reader (.error fault, rest)
  | finished (rest : Reader) (pieces : reads limit reader = []) (failure : failure? reader = none) :
    Answer limit reader (.ok [], rest)
  | piece (data : Bytes) (rest : Reader) (written : data ≠ [])
    (pieces : reads limit reader = data :: reads limit rest)
    (failure : failure? reader = failure? rest) : Answer limit reader (.ok data, rest)

theorem readSome_answer (positive : 0 < limit) (reader : Reader) :
    Answer limit reader (reader.readSome limit) := by
  induction reader with
  | nil => exact .finished [] rfl rfl
  | cons event rest ih =>
    cases event with
    | fault fault =>
      by_cases interrupted : fault.kind = .interrupted
      · have pieces : reads limit (.fault fault :: rest) = reads limit rest := if_pos interrupted
        have failure : failure? (.fault fault :: rest) = failure? rest := if_pos interrupted
        rw [readSome, if_pos interrupted]
        generalize readSome limit rest = answer at ih ⊢
        cases ih with
        | failed other left none_left ended =>
          exact .failed other left (pieces.trans none_left) (failure.trans ended)
        | finished left none_left ended =>
          exact .finished left (pieces.trans none_left) (failure.trans ended)
        | piece data left written more ended =>
          exact .piece data left written (pieces.trans more) (failure.trans ended)
      · rw [readSome, if_neg interrupted]
        exact .failed fault rest (if_neg interrupted) (if_neg interrupted)
    | bytes data =>
      simp only [readSome, Reader.read]
      by_cases written : data = []
      · subst written
        exact .finished rest rfl rfl
      · have pieces : reads limit (.bytes data :: rest) =
            data.take limit :: (Bytes.pieces limit (data.drop limit) ++ reads limit rest) := by
          rw [reads, if_neg written, pieces_written positive written, List.cons_append]
        have failure : failure? (.bytes data :: rest) = failure? rest := if_neg written
        split
        next fits =>
          refine .piece data rest written ?_ failure
          rw [pieces, List.take_of_length_le fits, List.drop_of_length_le fits, pieces_nil,
            List.nil_append]
        next long =>
          have more : data.drop limit ≠ [] := by
            rw [ne_eq, List.drop_eq_nil_iff]
            exact long
          refine .piece (data.take limit) (.bytes (data.drop limit) :: rest) ?_ ?_ ?_
          · rw [ne_eq, List.take_eq_nil_iff]
            exact not_or.mpr ⟨Nat.ne_of_gt positive, written⟩
          · rw [pieces, reads, if_neg more]
          · rw [failure, failure?, if_neg more]

theorem withoutFaults_bytes (data : Bytes) (rest : Reader) :
    withoutFaults (.bytes data :: rest) = .bytes data :: withoutFaults rest := rfl

/-- Faults cost a caller pieces at the end and change none, and cost nothing if none of them ends
the input. -/
theorem reads_withoutFaults (limit : Nat) (reader : Reader) :
    reads limit reader <+: reads limit (withoutFaults reader) ∧
      (failure? reader = none → reads limit reader = reads limit (withoutFaults reader)) := by
  induction reader with
  | nil => exact ⟨List.prefix_refl _, fun _ => rfl⟩
  | cons event rest ih =>
    obtain ⟨shorter, same⟩ := ih
    cases event with
    | fault fault =>
      by_cases interrupted : fault.kind = .interrupted
      · simp only [reads, failure?, if_pos interrupted]
        exact ⟨shorter, same⟩
      · simp only [reads, failure?, if_neg interrupted]
        exact ⟨List.nil_prefix, fun none_left => by cases none_left⟩
    | bytes data =>
      rw [withoutFaults_bytes]
      by_cases written : data = []
      · simp [reads, written]
      · simp only [reads, failure?, if_neg written]
        exact ⟨(List.prefix_append_right_inj _).mpr shorter, fun ended => by rw [same ended]⟩

/-- Whether a writer has room for `data`, and takes something at a time. -/
structure Takes (writer : Writer) (data : Bytes) : Prop where
  fits : ∀ room, writer.room = some room → data.length ≤ room
  moves : data ≠ [] → writer.maxWrite ≠ some 0

/-- A writer that has taken `data`. -/
def after (writer : Writer) (data : Bytes) : Writer :=
  { writer with
    received := writer.received ++ data
    room := writer.room.map (· - data.length) }

theorem takes_nil (writer : Writer) : Takes writer [] :=
  ⟨fun _ _ => Nat.zero_le _, fun written => absurd rfl written⟩

@[simp] theorem after_nil (writer : Writer) : after writer [] = writer := by
  simp [after]

@[simp] theorem after_append (writer : Writer) (front back : Bytes) :
    after (after writer front) back = after writer (front ++ back) := by
  simp [after, Function.comp_def, Nat.sub_sub]

/-- Room for data is room for its front, and then for the rest. -/
theorem takes_append {writer : Writer} {front back : Bytes} :
    Takes writer (front ++ back) ↔ Takes writer front ∧ Takes (after writer front) back := by
  constructor
  · rintro ⟨fits, moves⟩
    refine ⟨⟨fun room left => ?_, fun written => moves (by simp [written])⟩,
      ⟨fun room left => ?_, fun written => moves (by simp [written])⟩⟩
    · have both := fits room left
      rw [List.length_append] at both
      omega
    · obtain ⟨before, had, rfl⟩ := Option.map_eq_some_iff.mp left
      have both := fits before had
      rw [List.length_append] at both
      omega
  · rintro ⟨first, second⟩
    refine ⟨fun room left => ?_, fun written => ?_⟩
    · have one := first.fits room left
      have two := second.fits (room - front.length) (by simp [after, left])
      rw [List.length_append]
      omega
    · by_cases none_first : front = []
      · exact second.moves (by simpa [none_first] using written)
      · exact first.moves none_first

private theorem atMost_le (n : Nat) (bound : Option Nat) : atMost n bound ≤ n := by
  cases bound with
  | none => exact Nat.le_refl _
  | some bound => exact Nat.min_le_left _ _

private theorem atMost_bound (n bound : Nat) : atMost n (some bound) ≤ bound :=
  Nat.min_le_right _ _

private theorem atMost_pos {bound : Option Nat} (positive : 0 < n) (free : bound ≠ some 0) :
    0 < atMost n bound := by
  cases bound with
  | none => exact positive
  | some bound =>
    have room : bound ≠ 0 := fun zero => free (congrArg some zero)
    simp only [atMost]
    omega

/-- What can come of one write: nothing, or a part of the data for which there is room. -/
inductive Part (writer : Writer) (data : Bytes) : Writer × Except IoFault Nat → Prop
  | refused (fault : IoFault) (stuck : ¬ Takes writer data) :
    Part writer data (writer, .error fault)
  | taken (count : Nat) (fits : Takes writer (data.take count))
    (stuck : count = 0 → ¬ Takes writer data) :
    Part writer data (after writer (data.take count), .ok count)

theorem write_part (writer : Writer) (written : data ≠ []) :
    Part writer data (writer.write data) := by
  have positive := List.length_pos_iff.mpr written
  rw [write]
  split
  next full =>
    refine .refused _ fun takes => ?_
    have fits := takes.fits 0 full
    omega
  next free =>
    generalize number : atMost (atMost data.length writer.room) writer.maxWrite = count
    have inside : count ≤ atMost data.length writer.room := number ▸ atMost_le _ _
    have taken : (data.take count).length = count :=
      List.length_take_of_le (Nat.le_trans inside (atMost_le _ _))
    have grown : after writer (data.take count) = { writer with
        received := writer.received ++ data.take count
        room := writer.room.map (· - count) } := by
      rw [after, taken]
    dsimp only
    rw [← grown]
    refine .taken count ⟨fun room left => ?_, fun moved closed => ?_⟩ fun none_taken takes => ?_
    · rw [left] at inside
      rw [taken]
      exact Nat.le_trans inside (atMost_bound _ _)
    · rw [closed] at number
      have none_taken : count ≤ 0 := number ▸ atMost_bound _ _
      exact moved (List.take_eq_nil_iff.mpr (.inl (Nat.eq_zero_of_le_zero none_taken)))
    · have some_taken := atMost_pos (atMost_pos positive free) (takes.moves written)
      omega

/-- What can come of writing out all of some data: it is written, or a part of it from the front. -/
inductive Written (writer : Writer) (data : Bytes) : Writer × Except IoFault Unit → Prop
  | all (takes : Takes writer data) : Written writer data (after writer data, .ok ())
  | part (last : Writer) (front : Bytes) (fault : IoFault) (stuck : ¬ Takes writer data)
    (received : last.received = writer.received ++ front) (inside : front <+: data) :
    Written writer data (last, .error fault)

theorem Written.nothing (writer : Writer) : Written writer [] (writer, .ok ()) := by
  have all := Written.all (takes_nil writer)
  rw [after_nil] at all
  exact all

/-- What is written on after a front that was taken is written after all of it. -/
theorem Written.continued {answer : Writer × Except IoFault Unit} (fits : Takes writer front)
    (later : Written (after writer front) back answer) : Written writer (front ++ back) answer := by
  cases later with
  | all takes =>
    rw [after_append]
    exact .all (takes_append.mpr ⟨fits, takes⟩)
  | part last more fault stuck received inside =>
    refine .part last (front ++ more) fault (fun takes => stuck (takes_append.mp takes).2) ?_ ?_
    · rw [received, after, List.append_assoc]
    · exact (List.prefix_append_right_inj front).mpr inside

theorem writeAll_written (writer : Writer) (data : Bytes) :
    Written writer data (writer.writeAll data) := by
  induction writer, data using writeAll.induct with
  | case1 writer =>
    rw [writeAll]
    exact .nothing writer
  | case2 writer b bs next fault answer =>
    have part := write_part writer (List.cons_ne_nil b bs)
    rw [answer] at part
    cases part with
    | refused _ stuck =>
      simp only [writeAll, answer]
      exact .part writer [] fault stuck (List.append_nil _).symm List.nil_prefix
  | case3 writer b bs next answer =>
    have part := write_part writer (List.cons_ne_nil b bs)
    rw [answer] at part
    cases part with
    | taken _ _ stuck =>
      simp only [writeAll, answer]
      exact .part _ [] _ (stuck rfl) (by simp) List.nil_prefix
  | case4 writer b bs next count answer ih =>
    have part := write_part writer (List.cons_ne_nil b bs)
    rw [answer] at part
    cases part with
    | taken _ fits _ =>
      have whole := Written.continued fits ih
      -- The recursion is on the tail, the lemma about what is taken on the whole.
      have rest : bs.drop count = (b :: bs).drop (count + 1) := rfl
      rw [rest, Nat.succ_eq_add_one, List.take_append_drop] at whole
      simp only [writeAll, answer]
      exact whole

end RoomCipher.ChannelRuns

import Mathlib.Data.List.Nodup
import RoomCipher.Wire.Room

/-! Records on their way from one member to another. They travel as text, and what is
read from the text of a record is an object with the same fields, though perhaps not in
the same order. Invitations and announcements are found again in any such object, and
the tags in an invitation are read back as the settings that they were written for. -/
namespace RoomCipher.WireRecords
open Wire

/-- A text form of values. -/
structure Codec where
  write : Value → String
  read : String → Option Value

namespace Codec

/-- An object that is written can be read, with the same fields in whatever order. -/
def Returns (codec : Codec) (value : Value) : Prop :=
  ∃ fields back, value = .object fields ∧ back.Perm fields ∧
    codec.read (codec.write value) = some (.object back)

/-- A value written as text, read back, and understood as something. -/
def carry {α : Type} (codec : Codec) (understand : Value → Option α) (value : Value) : Option α :=
  codec.read (codec.write value) >>= understand

/-- What is understood whatever the order of the fields comes through. -/
theorem carry_eq {α : Type} {codec : Codec} {understand : Value → Option α} {result : α}
    (returns : codec.Returns (.object fields))
    (understood : ∀ back, back.Perm fields → understand (.object back) = some result) :
    codec.carry understand (.object fields) = some result := by
  obtain ⟨_, back, same, order, again⟩ := returns
  cases same
  rw [carry, again]
  exact understood back order

end Codec

/-! ### Fields -/

variable {fields back : List (String × Value)}

theorem lookup_of_mem (distinct : (fields.map (·.1)).Nodup) (member : (name, value) ∈ fields) :
    fields.lookup name = some value := by
  obtain ⟨front, rest, rfl⟩ := List.append_of_mem member
  rw [List.map_append, List.map_cons] at distinct
  have fresh := (List.nodup_cons.mp (List.nodup_middle.mp distinct)).1
  refine List.lookup_eq_some_iff.mpr ⟨front, rest, rfl, fun entry before => ?_⟩
  refine bne_iff_ne.mpr fun same => fresh ?_
  exact List.mem_append_left _ (List.mem_map.mpr ⟨entry, before, same.symm⟩)

/-- A field is found wherever it stands. -/
theorem lookup_perm (order : back.Perm fields) (distinct : (fields.map (·.1)).Nodup) (name : String)
    (value : Value) (found : fields.lookup name = some value) : back.lookup name = some value := by
  obtain ⟨front, rest, rfl, _⟩ := List.lookup_eq_some_iff.mp found
  refine lookup_of_mem ((order.map _).nodup_iff.mpr distinct) ?_
  exact order.mem_iff.mpr (List.mem_append_right _ List.mem_cons_self)

/-! ### Records -/

variable {codec : Codec}

theorem carry_invitation {invitation : Invitation} (narrow : invitation.version ≤ Value.maxByte)
    (returns : codec.Returns invitation.toValue) :
    codec.carry Invitation.ofValue? invitation.toValue = some invitation := by
  refine Codec.carry_eq returns fun back order => ?_
  have distinct : ["version", "room_id", "algorithm", "mode", "padding", "prime"].Nodup := by decide
  have found := lookup_perm order distinct
  have version : (Value.natural invitation.version).natural? Value.maxByte =
      some invitation.version := if_pos narrow
  simp only [Invitation.ofValue?, Value.field?, found "version" _ rfl, found "room_id" _ rfl,
    found "algorithm" _ rfl, found "mode" _ rfl, found "padding" _ rfl, found "prime" _ rfl,
    Option.bind_eq_bind, Option.bind_some, version, Value.text?]
  rfl

theorem carry_announcement {announcement : Announcement}
    (returns : codec.Returns announcement.toValue) :
    codec.carry Announcement.ofValue? announcement.toValue = some announcement := by
  refine Codec.carry_eq returns fun back order => ?_
  have distinct : ["room_id", "client_id", "public_key"].Nodup := by decide
  have found := lookup_perm order distinct
  simp only [Announcement.ofValue?, Value.record?, List.mapM_cons, List.mapM_nil,
    found "room_id" _ rfl, found "client_id" _ rfl, found "public_key" _ rfl]
  rfl

/-! ### Tags -/

/-- Settings that are read back from their own spelling. -/
class Legible (α : Type) [Tag α] : Prop where
  parse_name : ∀ setting : α, Tag.parse (Tag.name setting) = .ok setting

instance : Legible Algorithm where
  parse_name setting := by cases setting <;> rfl

instance : Legible Mode where
  parse_name setting := by cases setting <;> rfl

instance : Legible Padding where
  parse_name setting := by cases setting <;> rfl

theorem ofTags_name (cores : Nat) (algorithm : Algorithm) (mode : Mode) (padding : Padding) :
    Config.ofTags cores algorithm.name mode.name padding.name =
      .ok (Config.withTags cores algorithm mode padding) := by
  have algorithms : Tag.parse algorithm.name = .ok algorithm := Legible.parse_name algorithm
  have modes : Tag.parse mode.name = .ok mode := Legible.parse_name mode
  have paddings : Tag.parse padding.name = .ok padding := Legible.parse_name padding
  rw [Config.ofTags, algorithms, modes, paddings]
  rfl

end RoomCipher.WireRecords

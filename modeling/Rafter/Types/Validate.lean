import Rafter.Bytes.Text
import Rafter.Types.Checksum

/-!
# Validated constructors of snapshot metadata

`crates/rafter/src/types/snapshot/` (`identity.rs`, `metadata.rs`, `error.rs`): the constructors
that decoders of persisted and transported metadata go through.

The fields of `RaftSnapshotMetadata` are public in the source, so a value need not have passed
`RaftSnapshotMetadata::new`; `RaftSnapshotMetadata.Valid` says that its fields would pass.

Results:

* `SnapshotId.new_ok_iff`: an identifier is built from its own text and from no other;
* `RaftSnapshotMetadata.new_ok_iff`: the constructor accepts exactly the valid fields.
-/

namespace Rafter

open Bytes (encodeText)

/-! ## Identifiers -/

/-- `SnapshotIdError`. -/
inductive SnapshotIdError where
  | empty (field : String)
  | tooLong (field : String) (len : ℕ)
  | invalidCharacter (field : String) (character : Char)
deriving DecidableEq

theorem toNat_lt_of_snapshotIdCharacter {c : Char} (h : snapshotIdCharacter c) :
    c.toNat < 0x80 := by
  have hle : ∀ d : Char, c ≤ d → c.toNat ≤ d.toNat := fun d hd => hd
  simp only [snapshotIdCharacter, Bool.or_eq_true, Bool.and_eq_true, decide_eq_true_eq,
    beq_iff_eq] at h
  rcases h with ((((((⟨-, h⟩ | ⟨-, h⟩) | ⟨-, h⟩) | h) | h) | h) | h)
  · exact lt_of_le_of_lt (hle _ h) (by decide)
  · exact lt_of_le_of_lt (hle _ h) (by decide)
  · exact lt_of_le_of_lt (hle _ h) (by decide)
  all_goals
    subst h
    decide

theorem length_le_encodeText (text : List Char) : text.length ≤ (encodeText text).length := by
  induction text with
  | nil => simp
  | cons c text ih =>
    have hc : 0 < (String.utf8EncodeChar c).length := by
      rw [String.length_utf8EncodeChar]
      exact c.utf8Size_pos
    rw [Bytes.encodeText_cons, List.length_append, List.length_cons]
    omega

/-- `validate_snapshot_id`, then the identifier it validates (`SnapshotGroupId::new` and
`ApplicationSnapshotKind::new` differ in the field they name). -/
def SnapshotId.new (field : String) (value : List Char) : Except SnapshotIdError SnapshotId :=
  if hempty : value = [] then .error (.empty field)
  else if hlong : 128 < (encodeText value).length then
    .error (.tooLong field (encodeText value).length)
  else
    match hfind : value.find? (fun c => !snapshotIdCharacter c) with
    | some c => .error (.invalidCharacter field c)
    | none => .ok
      { value := value
        ne_nil := hempty
        length_le := (length_le_encodeText value).trans (Nat.le_of_not_lt hlong)
        valid := fun c hc => by simpa using List.find?_eq_none.1 hfind c hc }

/-- `SnapshotGroupId::new`. -/
def SnapshotGroupId.new : List Char → Except SnapshotIdError SnapshotGroupId :=
  SnapshotId.new "snapshot group id"

/-- `ApplicationSnapshotKind::new`. -/
def ApplicationSnapshotKind.new : List Char → Except SnapshotIdError ApplicationSnapshotKind :=
  SnapshotId.new "application snapshot kind"

namespace SnapshotId

theorem ascii (id : SnapshotId) : ∀ c ∈ id.value, c.toNat < 0x80 :=
  fun c hc => toNat_lt_of_snapshotIdCharacter (id.valid c hc)

theorem length_encodeText (id : SnapshotId) : (encodeText id.value).length = id.value.length := by
  rw [Bytes.encodeText_ascii id.ascii, List.length_map]

theorem new_ok_iff {field : String} {value : List Char} {id : SnapshotId} :
    SnapshotId.new field value = .ok id ↔ value = id.value := by
  unfold SnapshotId.new
  constructor
  · intro h
    split_ifs at h with hempty hlong
    split at h
    · exact absurd h (by simp)
    · rw [← Except.ok.inj h]
  · rintro rfl
    have hlen : ¬ 128 < (encodeText id.value).length := by
      rw [id.length_encodeText]
      exact Nat.not_lt.2 id.length_le
    rw [dif_neg id.ne_nil, dif_neg hlen]
    split
    · rename_i c hfind
      have hbad := List.find?_some hfind
      have hgood := id.valid c (List.mem_of_find?_eq_some hfind)
      simp [hgood] at hbad
    · rfl

end SnapshotId

/-! ## Metadata -/

/-- `SnapshotMetadataError`. -/
inductive SnapshotMetadataError where
  | zeroApplicationSnapshotVersion
  | zeroLastIncludedIndex
  | lastIncludedIndexAtMaximum
  | zeroLastIncludedTerm (lastIncludedIndex : ℕ)
  | snapshotTermAheadOfHardState (lastIncludedIndex lastIncludedTerm hardStateTerm : ℕ)
deriving DecidableEq

/-- `ApplicationSnapshotVersion::new`, on a number as a `u16`. -/
def ApplicationSnapshotVersion.new (value : ℕ) :
    Except SnapshotMetadataError ApplicationSnapshotVersion :=
  if hzero : value % 2 ^ 16 = 0 then .error .zeroApplicationSnapshotVersion
  else .ok ⟨value % 2 ^ 16, hzero, Nat.mod_lt _ (by omega)⟩

theorem ApplicationSnapshotVersion.new_ok_iff {value : ℕ} (hlt : value < 2 ^ 16)
    {version : ApplicationSnapshotVersion} : new value = .ok version ↔ value = version.value := by
  have hmod : value % 2 ^ 16 = value := Nat.mod_eq_of_lt hlt
  unfold new
  constructor
  · intro h
    split_ifs at h with hzero
    rw [← Except.ok.inj h]
    exact hmod.symm
  · rintro rfl
    rw [dif_neg (by rw [hmod]; exact version.ne_zero)]
    congr 1
    cases version
    congr 1

namespace RaftSnapshotMetadata

/-- `RaftSnapshotMetadata::new`. -/
def new (groupId : SnapshotGroupId) (writerId : NodeId)
    (lastIncludedIndex lastIncludedTerm hardStateTerm : ℕ)
    (application : ApplicationSnapshotMetadata) :
    Except SnapshotMetadataError RaftSnapshotMetadata :=
  if lastIncludedIndex = 0 then .error .zeroLastIncludedIndex
  else if lastIncludedIndex = u64Max then .error .lastIncludedIndexAtMaximum
  else if lastIncludedTerm = 0 then .error (.zeroLastIncludedTerm lastIncludedIndex)
  else if hardStateTerm < lastIncludedTerm then
    .error (.snapshotTermAheadOfHardState lastIncludedIndex lastIncludedTerm hardStateTerm)
  else .ok
    { groupId := groupId
      writerId := writerId
      lastIncludedIndex := lastIncludedIndex
      lastIncludedTerm := lastIncludedTerm
      hardStateTerm := hardStateTerm
      application := application
      committedConfiguration := none }

/-- The metadata's fields pass `RaftSnapshotMetadata::new`. -/
def Valid (m : RaftSnapshotMetadata) : Prop :=
  m.lastIncludedIndex ≠ 0 ∧ m.lastIncludedIndex ≠ u64Max ∧ m.lastIncludedTerm ≠ 0 ∧
    m.lastIncludedTerm ≤ m.hardStateTerm

instance (m : RaftSnapshotMetadata) : Decidable m.Valid :=
  inferInstanceAs (Decidable (_ ∧ _ ∧ _ ∧ _))

/-- `RaftSnapshotMetadata::with_committed_configuration`. -/
def withCommittedConfiguration (m : RaftSnapshotMetadata)
    (configuration : SnapshotCommittedConfiguration) : RaftSnapshotMetadata :=
  { m with committedConfiguration := some configuration }

theorem new_ok_iff {groupId : SnapshotGroupId} {writerId : NodeId} {index term hardStateTerm : ℕ}
    {application : ApplicationSnapshotMetadata} {m : RaftSnapshotMetadata} :
    new groupId writerId index term hardStateTerm application = .ok m ↔
      m = ⟨groupId, writerId, index, term, hardStateTerm, application, none⟩ ∧ m.Valid := by
  unfold new
  constructor
  · intro h
    split_ifs at h with hzero hmax hterm hahead
    obtain rfl := Except.ok.inj h
    exact ⟨rfl, hzero, hmax, hterm, Nat.le_of_not_lt hahead⟩
  · rintro ⟨rfl, hzero, hmax, hterm, hahead⟩
    rw [if_neg hzero, if_neg hmax, if_neg hterm, if_neg (Nat.not_lt.2 hahead)]

end RaftSnapshotMetadata

end Rafter

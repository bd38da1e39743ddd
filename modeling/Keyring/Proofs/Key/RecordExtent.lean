import Keyring.Proofs.Json.Ends
import Keyring.Proofs.Key.RecordVariants

/-!
# A record is loaded as a whole or not at all

Every record is a container, so its text says where it ends. Main statement: a text that is loaded
may only be followed by blanks, and a text that is cut short inside it is no record at all. The
second follows from the first. If what is left after the cut were a record, then the whole text
would be a record with more than blanks behind it.
-/

namespace Keyring

open Record Json

namespace Record

/-- A record is read from a container that is closed. -/
theorem Layout.closed_of_bind {Field α : Type} [DecidableEq Field] {layout : Layout Field}
    {node : Node} {make : Draft layout → Except Fault α} {record : α}
    (h : layout.draft node >>= make = .ok record) :
    node.isContainer ∧ node.skipStop? = none := by
  refine ⟨?_, skipStop?_of_bind h⟩
  obtain ⟨draft, hdraft, -⟩ := Result.bind_eq_ok.1 h
  cases node with
  | array | object => rfl
  | null | bool | number | text | broken => cases hdraft

/-- Behind a text that is read as a record, only blanks are read over. -/
theorem readAll_append {α : Type} {read : Node → Except Fault α}
    (hclosed : ∀ {node record}, read node = .ok record → node.isContainer ∧ node.skipStop? = none)
    {text : String} {record : α} (h : readAll read text = .ok record) (rest : String) :
    readAll read (text ++ rest) =
      if rest.toList.all isBlank then .ok record else .error (.stopped .malformed) := by
  obtain ⟨node, htext, hnode⟩ := (readAll_eq_ok fun hread => (hclosed hread).2).1 h
  have hsplit : Node.ofText (text ++ rest).toList = (node, tokens rest.toList) := by
    rw [String.toList_append]
    exact htext.ofText_append (hclosed hnode).1 rest.toList
  simp only [readAll, hsplit, hnode, Result.ok_bind, isEmpty_tokens]

end Record

namespace KeyMaterial

/-- Each family reads a record from a closed container and makes a key of it. -/
theorem exists_load (keyType : KeyType) :
    ∃ (α β : Type) (read : Node → Except Fault α) (load : α → Result β) (wrap : β → KeyMaterial),
      (∀ {node record}, read node = .ok record → node.isContainer ∧ node.skipStop? = none) ∧
        ∀ text, ofRecordText keyType text =
          wrap <$> (Result.ofFault .invalidRecord (readAll read text) >>= load) := by
  cases keyType with
  | aes => exact ⟨_, _, _, _, symmetric, Layout.closed_of_bind, fun _ => rfl⟩
  | hmacSha1 => exact ⟨_, _, _, _, mac, Layout.closed_of_bind, fun _ => rfl⟩
  | dsaPrivate => exact ⟨_, _, _, _, dsaPrivate, Layout.closed_of_bind, fun _ => rfl⟩
  | dsaPublic => exact ⟨_, _, _, _, dsaPublic, Layout.closed_of_bind, fun _ => rfl⟩
  | rsaPrivate => exact ⟨_, _, _, _, rsaPrivate, Layout.closed_of_bind, fun _ => rfl⟩
  | rsaPublic => exact ⟨_, _, _, _, rsaPublic, Layout.closed_of_bind, fun _ => rfl⟩

variable {keyType : KeyType} {text start rest : String} {key : KeyMaterial}

/-- Behind a record text, blanks do not count and anything else is refused. -/
theorem ofRecordText_append (h : ofRecordText keyType text = .ok key) (rest : String) :
    ofRecordText keyType (text ++ rest) =
      if rest.toList.all isBlank then .ok key
      else .error (.invalidRecord (.stopped .malformed)) := by
  obtain ⟨α, β, read, load, wrap, hclosed, hload⟩ := exists_load keyType
  rw [hload] at h ⊢
  obtain ⟨concrete, hkey, hwrap⟩ := Result.map_eq_ok.1 h
  obtain ⟨record, hread, -⟩ := Result.bind_eq_ok.1 hkey
  rw [Result.ofFault_eq_ok] at hread
  rw [readAll_append hclosed hread]
  rw [hread] at h
  split
  case isTrue => exact h
  case isFalse => rfl

/-- What is left of a record text that is cut is no record. -/
theorem ofRecordText_cut (h : ofRecordText keyType (start ++ rest) = .ok key)
    (hrest : ¬ rest.toList.all isBlank) :
    ∃ fault, ofRecordText keyType start = .error (.invalidRecord fault) := by
  obtain ⟨α, β, read, load, wrap, hclosed, hload⟩ := exists_load keyType
  rw [hload] at h ⊢
  cases hread : readAll read start with
  | error fault => exact ⟨fault, rfl⟩
  | ok record =>
    rw [readAll_append hclosed hread, if_neg hrest] at h
    cases h

/-- **A record is loaded as a whole or not at all.** A text of any family that is loaded is no
longer a record when it is cut before the last of its characters that is not blank, and when
something that is not blank is put behind it. Blanks behind it do not count. -/
theorem loads_whole_text_only (h : ofRecordText keyType text = .ok key) :
    (∀ start rest : String, start ++ rest = text → (∃ c ∈ rest.toList, ¬ isBlank c) →
      ∃ fault, ofRecordText keyType start = .error (.invalidRecord fault)) ∧
    (∀ rest : String, (∃ c ∈ rest.toList, ¬ isBlank c) →
      ofRecordText keyType (text ++ rest) = .error (.invalidRecord (.stopped .malformed))) ∧
    ∀ rest : String, (∀ c ∈ rest.toList, isBlank c) →
      ofRecordText keyType (text ++ rest) = .ok key := by
  have hblank {rest : String} (hrest : ∃ c ∈ rest.toList, ¬ isBlank c) :
      ¬ rest.toList.all isBlank := by
    obtain ⟨c, hc, hne⟩ := hrest
    exact fun hall => hne (List.all_eq_true.1 hall c hc)
  refine ⟨?_, fun rest hrest => ?_, fun rest hrest => ?_⟩
  · rintro start rest rfl hrest
    exact ofRecordText_cut h (hblank hrest)
  · rw [ofRecordText_append h, if_neg (hblank hrest)]
  · rw [ofRecordText_append h, if_pos (List.all_eq_true.2 hrest)]

/-- The record of an object ends with its brace. -/
theorem exists_append_brace (members : List (String × Node)) :
    ∃ start, start ++ "\x7d" = (objectNode members).render := by
  rw [Node.render, objectNode, Node.tokens, List.flatMap_append, String.ofList_append]
  exact ⟨_, rfl⟩

/-- The record of an AES key is refused without its last brace, and with a number behind it. -/
theorem loads_whole_text_only_shortest :
    let text := (SymmetricKey.mk (List.replicate 16 0x40) ⟨List.replicate 20 0x60⟩).recordText
    (∃ start, start ++ "\x7d" = text ∧
      ∃ fault, ofRecordText .aes start = .error (.invalidRecord fault)) ∧
    ofRecordText .aes (text ++ " 0") = .error (.invalidRecord (.stopped .malformed)) := by
  intro text
  have hkey := Obtained.symmetric (SymmetricKey.obtained_shortest 0x40 0x60)
  obtain ⟨hcut, hextended, -⟩ := loads_whole_text_only hkey.checked.ofRecordText_recordText
  obtain ⟨start, hstart⟩ : ∃ start, start ++ "\x7d" = text := exists_append_brace _
  exact ⟨⟨start, hstart, hcut start "\x7d" hstart ⟨_, .head _, by decide⟩⟩,
    hextended " 0" ⟨'0', by decide, by decide⟩⟩

end KeyMaterial

end Keyring

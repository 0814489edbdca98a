/-
A payload is read only from the bytes that are written for it: every number has a fixed width, every
tag has one value for each case, and text is read from its own bytes alone. Bytes behind a payload are
left, and nothing is known of them.

This is the other direction of the round trip, again piece by piece (`Spells`). It asks nothing of the
sizes, since a length that was read is what it says.
-/
import GroupReplication.Proofs.Action
import GroupReplication.Proofs.Packet.RoundTrip

namespace GroupReplication

section Readers

variable {ε α β : Type} {bs rest : Bytes}

theorem run_bind_eq_ok {r : StateT Bytes (Except ε) α} {f : α → StateT Bytes (Except ε) β} {b : β}
    (h : (r >>= f).run bs = .ok (b, rest)) :
    ∃ a mid, r.run bs = .ok (a, mid) ∧ (f a).run mid = .ok (b, rest) := by
  rw [StateT.run_bind] at h
  obtain ⟨⟨a, mid⟩, hfirst, h⟩ := bind_eq_ok h
  exact ⟨a, mid, hfirst, h⟩

theorem run_map_eq_ok {r : StateT Bytes (Except ε) α} {f : α → β} {b : β}
    (h : (f <$> r).run bs = .ok (b, rest)) : ∃ a, r.run bs = .ok (a, rest) ∧ f a = b := by
  rw [map_eq_pure_bind] at h
  obtain ⟨a, mid, hrun, h⟩ := run_bind_eq_ok h
  cases h
  exact ⟨a, hrun, rfl⟩

/-- What is read was written in no other way. -/
def Spells (put : α → Bytes) (get : StateT Bytes (Except ε) α) : Prop :=
  ∀ bs a rest, get.run bs = .ok (a, rest) → bs = put a ++ rest

end Readers

namespace Payload

theorem run_getRaw_eq_ok {n : Nat} {bs raw rest : Bytes} (h : (getRaw n).run bs = .ok (raw, rest)) :
    raw.length = n ∧ bs = raw ++ rest := by
  simp only [getRaw, StateT.run] at h
  split at h
  · rename_i hn
    rw [List.splitAt_eq] at h
    cases h
    exact ⟨List.length_take_of_le hn, (List.take_append_drop n bs).symm⟩
  · cases h

theorem run_getNat_eq_ok {width n : Nat} {bs rest : Bytes}
    (h : (getNat width).run bs = .ok (n, rest)) :
    n < 256 ^ width ∧ bs = littleEndian width n ++ rest := by
  obtain ⟨raw, mid, hraw, h⟩ := run_bind_eq_ok h
  obtain ⟨hlength, hbs⟩ := run_getRaw_eq_ok hraw
  cases h
  subst hlength
  exact ⟨ofLittleEndian_lt raw, by rw [littleEndian_ofLittleEndian, hbs]⟩

theorem spells_bytes : Spells putBytes getBytes := by
  intro bs raw rest h
  obtain ⟨n, mid, hn, h⟩ := run_bind_eq_ok h
  obtain ⟨-, hbs⟩ := run_getNat_eq_ok hn
  obtain ⟨hlength, hmid⟩ := run_getRaw_eq_ok h
  rw [hbs, hmid, putBytes, putNat64, hlength, List.append_assoc]

theorem spells_text : Spells putText getText := by
  intro bs s rest h
  obtain ⟨n, mid, hn, h⟩ := run_bind_eq_ok h
  obtain ⟨-, hbs⟩ := run_getNat_eq_ok hn
  obtain ⟨seen, left, hseen, h⟩ := run_bind_eq_ok h
  cases hseen
  split at h
  · obtain ⟨raw, left, hraw, h⟩ := run_bind_eq_ok h
    obtain ⟨hlength, hmid⟩ := run_getRaw_eq_ok hraw
    split at h
    · rename_i hdecode
      cases h
      rw [hbs, hmid, putText, putBytes, putNat64, ← Utf8.decode_eq_ok_iff.1 hdecode, hlength,
        List.append_assoc]
    · cases h
  · cases h

theorem spells_word : Spells putWord getWord := by
  intro bs w rest h
  obtain ⟨n, mid, hn, h⟩ := run_bind_eq_ok h
  obtain ⟨hlt, hbs⟩ := run_getNat_eq_ok hn
  cases h
  rw [hbs, putWord, putNat64, UInt64.toNat_ofNat_of_lt' (by simpa using hlt)]

theorem spells_option {α : Type} {put : α → Bytes} {get : Reader α} (h : Spells put get) :
    Spells (putOption put) (getOption get) := by
  intro bs o rest hrun
  obtain ⟨n, mid, hn, hrun⟩ := run_bind_eq_ok hrun
  obtain ⟨-, hbs⟩ := run_getNat_eq_ok hn
  split at hrun
  · cases hrun
    exact hbs
  · obtain ⟨a, left, hitem, hrun⟩ := run_bind_eq_ok hrun
    cases hrun
    rw [hbs, h _ _ _ hitem]
    rfl
  · cases hrun

theorem spells_items {α : Type} {put : α → Bytes} {get : Reader α} (h : Spells put get) {n : Nat}
    {bs rest : Bytes} {xs : List α} (hrun : (getItems get n).run bs = .ok (xs, rest)) :
    xs.length = n ∧ bs = xs.flatMap put ++ rest := by
  induction n generalizing bs xs with
  | zero =>
    cases hrun
    exact ⟨rfl, rfl⟩
  | succ n ih =>
    obtain ⟨x, mid, hitem, hrun⟩ := run_bind_eq_ok hrun
    obtain ⟨xs', left, hitems, hrun⟩ := run_bind_eq_ok hrun
    cases hrun
    obtain ⟨hlength, hmid⟩ := ih hitems
    rw [h _ _ _ hitem, hmid, List.flatMap_cons, List.append_assoc, List.length_cons, hlength]
    exact ⟨rfl, rfl⟩

theorem spells_list {α : Type} {put : α → Bytes} {get : Reader α} (h : Spells put get) :
    Spells (putList put) (getList get) := by
  intro bs xs rest hrun
  obtain ⟨n, mid, hn, hrun⟩ := run_bind_eq_ok hrun
  obtain ⟨-, hbs⟩ := run_getNat_eq_ok hn
  obtain ⟨hlength, hmid⟩ := spells_items h hrun
  rw [hbs, hmid, putList, putNat64, hlength, List.append_assoc]

/-! ## Records, in the order of their fields -/

theorem spells_image : Spells putImage getImage := by
  intro bs e rest h
  obtain ⟨typeName, mid, htype, h⟩ := run_bind_eq_ok h
  obtain ⟨uid, mid₂, huid, h⟩ := run_bind_eq_ok h
  obtain ⟨version, mid₃, hversion, h⟩ := run_bind_eq_ok h
  obtain ⟨data, mid₄, hdata, h⟩ := run_bind_eq_ok h
  obtain ⟨bulk, mid₅, hbulk, h⟩ := run_bind_eq_ok h
  cases h
  rw [spells_text _ _ _ htype, spells_text _ _ _ huid, spells_word _ _ _ hversion,
    spells_bytes _ _ _ hdata, spells_option spells_word _ _ _ hbulk]
  simp only [putImage, List.append_assoc]

theorem spells_field : Spells putField getField := by
  intro bs f rest h
  obtain ⟨name, mid, hname, h⟩ := run_bind_eq_ok h
  obtain ⟨value, mid₂, hvalue, h⟩ := run_bind_eq_ok h
  cases h
  rw [spells_text _ _ _ hname, spells_bytes _ _ _ hvalue, putField, List.append_assoc]

theorem spells_change : Spells putChange getChange := by
  intro bs c rest h
  obtain ⟨typeName, mid, htype, h⟩ := run_bind_eq_ok h
  obtain ⟨uid, mid₂, huid, h⟩ := run_bind_eq_ok h
  obtain ⟨previousVersion, mid₃, hprevious, h⟩ := run_bind_eq_ok h
  obtain ⟨version, mid₄, hversion, h⟩ := run_bind_eq_ok h
  obtain ⟨fields, mid₅, hfields, h⟩ := run_bind_eq_ok h
  obtain ⟨bulk, mid₆, hbulk, h⟩ := run_bind_eq_ok h
  cases h
  rw [spells_text _ _ _ htype, spells_text _ _ _ huid, spells_word _ _ _ hprevious,
    spells_word _ _ _ hversion, spells_list spells_field _ _ _ hfields,
    spells_option spells_word _ _ _ hbulk]
  simp only [putChange, List.append_assoc]

theorem spells_operation : Spells putOperation getOperation := by
  intro bs op rest h
  obtain ⟨tag, mid, htag, h⟩ := run_bind_eq_ok h
  obtain ⟨-, hbs⟩ := run_getNat_eq_ok htag
  split at h
  case h_1 | h_2 | h_3 =>
    obtain ⟨e, mid₂, himage, h⟩ := run_bind_eq_ok h
    cases h
    rw [hbs, spells_image _ _ _ himage, putOperation, List.append_assoc]
  case h_4 =>
    obtain ⟨c, mid₂, hchange, h⟩ := run_bind_eq_ok h
    cases h
    rw [hbs, spells_change _ _ _ hchange, putOperation, List.append_assoc]
  case h_5 => cases h

theorem spells_transaction : Spells putTransaction getTransaction := by
  intro bs t rest h
  obtain ⟨id, mid, hid, h⟩ := run_bind_eq_ok h
  obtain ⟨operations, mid₂, hoperations, h⟩ := run_bind_eq_ok h
  cases h
  rw [spells_word _ _ _ hid, spells_list spells_operation _ _ _ hoperations, putTransaction,
    List.append_assoc]

theorem spells_typeIndex : Spells putTypeIndex getTypeIndex := by
  intro bs i rest h
  obtain ⟨typeName, mid, htype, h⟩ := run_bind_eq_ok h
  obtain ⟨indexNames, mid₂, hnames, h⟩ := run_bind_eq_ok h
  cases h
  rw [spells_text _ _ _ htype, spells_list spells_text _ _ _ hnames, putTypeIndex, List.append_assoc]

theorem spells_descriptor : Spells putDescriptor getDescriptor := by
  intro bs d rest h
  obtain ⟨typeName, mid, htype, h⟩ := run_bind_eq_ok h
  obtain ⟨superType, mid₂, hsuper, h⟩ := run_bind_eq_ok h
  obtain ⟨properties, mid₃, hproperties, h⟩ := run_bind_eq_ok h
  cases h
  rw [spells_text _ _ _ htype, spells_option spells_text _ _ _ hsuper,
    spells_list spells_text _ _ _ hproperties]
  simp only [putDescriptor, List.append_assoc]

/-- A payload is of the kind it was read for, and stands in front with its own bytes. -/
theorem run_reader_eq_ok {kind : OperationKind} {bs rest : Bytes} {p : Payload}
    (h : (reader kind).run bs = .ok (p, rest)) : p.kind = kind ∧ bs = p.encode ++ rest := by
  cases kind <;> obtain ⟨a, hrun, rfl⟩ := run_map_eq_ok h <;> refine ⟨rfl, ?_⟩
  case write | update | take => exact spells_image _ _ _ hrun
  case change => exact spells_change _ _ _ hrun
  case txnPrepare | txnCommit | txnAbort => exact spells_transaction _ _ _ hrun
  case batch => exact spells_list spells_operation _ _ _ hrun
  case addTypeIndex => exact spells_typeIndex _ _ _ hrun
  case introduceType => exact spells_descriptor _ _ _ hrun

theorem decode_eq_ok {kind : OperationKind} {bs : Bytes} {p : Payload} (h : decode kind bs = .ok p) :
    p.kind = kind ∧ ∃ slack, bs = p.encode ++ slack := by
  cases hrun : (reader kind).run bs with
  | error fault =>
    rw [decode, hrun] at h
    cases h
  | ok read =>
    rw [decode, hrun] at h
    cases h
    obtain ⟨hkind, hspelled⟩ := run_reader_eq_ok hrun
    exact ⟨hkind, _, hspelled⟩

end Payload

end GroupReplication

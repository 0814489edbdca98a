/-
What is written for a payload is read back as the same payload, whatever stands behind it.

A reader and the writer beside it are compared piece by piece (`Faithful`): the bytes of a value
give the value back and leave the rest untouched. Numbers are cut to eight bytes when they are
written, so this holds of values whose own bytes are fewer than 2 ^ 64, which is every value
that fits a frame.
-/
import GroupReplication.Packet.Codec

namespace GroupReplication

@[simp] theorem ok_bind {ε α β : Type} (a : α) (f : α → Except ε β) :
    (Except.ok a >>= f) = f a := rfl

/-- The reader takes `bs` off the front of any input, and gives `a` for it. -/
def Reads {ε α : Type} (r : StateT Bytes (Except ε) α) (bs : Bytes) (a : α) : Prop :=
  ∀ rest, r.run (bs ++ rest) = .ok (a, rest)

namespace Reads

variable {ε α β : Type} {r : StateT Bytes (Except ε) α} {bs cs : Bytes} {a : α} {b : β}

theorem pure (a : α) : Reads (ε := ε) (Pure.pure a) [] a := fun _ => rfl

theorem bind {f : α → StateT Bytes (Except ε) β} (h : Reads r bs a) (hf : Reads (f a) cs b) :
    Reads (r >>= f) (bs ++ cs) b := by
  intro rest
  rw [StateT.run_bind, List.append_assoc, h (cs ++ rest)]
  exact hf rest

theorem map (f : α → β) (h : Reads r bs a) : Reads (f <$> r) bs (f a) := by
  intro rest
  rw [StateT.run_map, h rest]
  rfl

/-- A step that reads nothing more. -/
theorem bind_nil {f : α → StateT Bytes (Except ε) β} (h : Reads r bs a) (hf : Reads (f a) [] b) :
    Reads (r >>= f) bs b := by
  have := h.bind hf
  rwa [List.append_nil] at this

/-- The last step of a reader that only packs up what was read. -/
theorem bind_pure (f : α → β) (h : Reads r bs a) :
    Reads (r >>= fun x => Pure.pure (f x)) bs (f a) := h.bind_nil (Reads.pure (f a))

end Reads

namespace Payload

theorem reads_getRaw (bs : Bytes) : Reads (getRaw bs.length) bs bs := by
  intro rest
  simp [getRaw, StateT.run]

theorem reads_getNat {width n : Nat} (h : n < 256 ^ width) :
    Reads (getNat width) (littleEndian width n) n := by
  have hr := (reads_getRaw (littleEndian width n)).bind_pure ofLittleEndian
  rw [length_littleEndian, ofLittleEndian_littleEndian width n h] at hr
  exact hr

/-- What is written is never empty and is read back, as long as it is shorter than 2 ^ 64. -/
structure Faithful {α : Type} (put : α → Bytes) (get : Reader α) : Prop where
  nonempty : ∀ a, 0 < (put a).length
  reads : ∀ a, (put a).length < 2 ^ 64 → Reads get (put a) a

theorem length_putNat64 (n : Nat) : (putNat64 n).length = 8 := by simp [putNat64]

theorem reads_putNat64 {n : Nat} (h : n < 2 ^ 64) : Reads (getNat 8) (putNat64 n) n :=
  reads_getNat (by simpa using h)

theorem length_putBytes (bs : Bytes) : (putBytes bs).length = 8 + bs.length := by
  simp [putBytes, length_putNat64]

theorem faithful_bytes : Faithful putBytes getBytes where
  nonempty bs := by rw [length_putBytes]; omega
  reads bs h := by
    rw [length_putBytes] at h
    exact (reads_putNat64 (by omega)).bind (reads_getRaw bs)

theorem faithful_text : Faithful putText getText where
  nonempty s := faithful_bytes.nonempty _
  reads s h := by
    rw [putText, length_putBytes] at h
    refine (reads_putNat64 (by omega)).bind fun rest => ?_
    have hraw := reads_getRaw (Utf8.encode s) rest
    rw [StateT.run_bind, StateT.run_get, pure_bind, if_pos (by simp), StateT.run_bind, hraw]
    rw [ok_bind, Utf8.decode_encode]
    rfl

theorem faithful_word : Faithful putWord getWord where
  nonempty w := by simp [putWord, length_putNat64]
  reads w _ := by
    have h := (reads_putNat64 w.toNat_lt).bind_pure UInt64.ofNat
    rwa [UInt64.ofNat_toNat] at h

theorem faithful_option {α : Type} {put : α → Bytes} {get : Reader α} (h : Faithful put get) :
    Faithful (putOption put) (getOption get) where
  nonempty o := by cases o <;> simp [putOption]
  reads o ho := by
    have htag : ∀ n < 256, Reads (getNat 1) (littleEndian 1 n) n := fun n hn =>
      reads_getNat (by simpa using hn)
    cases o with
    | none => exact (htag 0 (by omega)).bind (Reads.pure none)
    | some a =>
      have ha : (put a).length < 2 ^ 64 := by
        simp only [putOption, List.length_cons] at ho
        omega
      exact (htag 1 (by omega)).bind ((h.reads a ha).bind_pure some)

theorem reads_getItems {α : Type} {put : α → Bytes} {get : Reader α} (h : Faithful put get) :
    ∀ xs : List α, (xs.flatMap put).length < 2 ^ 64 →
      Reads (getItems get xs.length) (xs.flatMap put) xs
  | [], _ => Reads.pure []
  | x :: xs, hlen => by
    rw [List.flatMap_cons, List.length_append] at hlen
    have hxs := reads_getItems h xs (by omega)
    exact (h.reads x (by omega)).bind (hxs.bind_pure (x :: ·))

theorem length_le_flatMap {α : Type} {put : α → Bytes} {get : Reader α} (h : Faithful put get)
    (xs : List α) : xs.length ≤ (xs.flatMap put).length := by
  induction xs with
  | nil => simp
  | cons x xs ih =>
    have := h.nonempty x
    rw [List.flatMap_cons, List.length_append, List.length_cons]
    omega

theorem faithful_list {α : Type} {put : α → Bytes} {get : Reader α} (h : Faithful put get) :
    Faithful (putList put) (getList get) where
  nonempty xs := by
    rw [putList, List.length_append, length_putNat64]
    omega
  reads xs hlen := by
    rw [putList, List.length_append, length_putNat64] at hlen
    have := length_le_flatMap h xs
    exact (reads_putNat64 (by omega)).bind (reads_getItems h xs (by omega))

/-! ## Records, in the order of their fields -/

theorem faithful_image : Faithful putImage getImage where
  nonempty e := by
    have := faithful_text.nonempty e.typeName
    simp only [putImage, List.length_append]
    omega
  reads e h := by
    simp only [putImage, List.length_append] at h
    have htype := faithful_text.reads e.typeName (by omega)
    have huid := faithful_text.reads e.uid (by omega)
    have hversion := faithful_word.reads e.version (by omega)
    have hdata := faithful_bytes.reads e.data (by omega)
    have hbulk := (faithful_option faithful_word).reads e.bulk (by omega)
    simp only [putImage, List.append_assoc]
    exact htype.bind (huid.bind (hversion.bind (hdata.bind (hbulk.bind_pure _))))

theorem faithful_field : Faithful putField getField where
  nonempty f := by
    have := faithful_text.nonempty f.1
    simp only [putField, List.length_append]
    omega
  reads f h := by
    simp only [putField, List.length_append] at h
    have hname := faithful_text.reads f.1 (by omega)
    exact hname.bind ((faithful_bytes.reads f.2 (by omega)).bind_pure _)

theorem faithful_change : Faithful putChange getChange where
  nonempty c := by
    have := faithful_text.nonempty c.typeName
    simp only [putChange, List.length_append]
    omega
  reads c h := by
    simp only [putChange, List.length_append] at h
    have htype := faithful_text.reads c.typeName (by omega)
    have huid := faithful_text.reads c.uid (by omega)
    have hprevious := faithful_word.reads c.previousVersion (by omega)
    have hversion := faithful_word.reads c.version (by omega)
    have hfields := (faithful_list faithful_field).reads c.fields (by omega)
    have hbulk := (faithful_option faithful_word).reads c.bulk (by omega)
    simp only [putChange, List.append_assoc]
    exact htype.bind (huid.bind (hprevious.bind (hversion.bind (hfields.bind
      (hbulk.bind_pure _)))))

theorem faithful_operation : Faithful putOperation getOperation where
  nonempty op := by
    cases op <;> simp only [putOperation, List.length_append, length_littleEndian] <;> omega
  reads op h := by
    have htag : ∀ n < 4, Reads (getNat 4) (littleEndian 4 n) n := fun n hn =>
      reads_getNat (by omega)
    cases op <;> simp only [putOperation, List.length_append] at h
    case write e =>
      exact (htag 0 (by omega)).bind ((faithful_image.reads e (by omega)).bind_pure _)
    case update e =>
      exact (htag 1 (by omega)).bind ((faithful_image.reads e (by omega)).bind_pure _)
    case take e =>
      exact (htag 2 (by omega)).bind ((faithful_image.reads e (by omega)).bind_pure _)
    case change c =>
      exact (htag 3 (by omega)).bind ((faithful_change.reads c (by omega)).bind_pure _)

theorem reads_getTransaction (t : Transaction) (h : (putTransaction t).length < 2 ^ 64) :
    Reads getTransaction (putTransaction t) t := by
  simp only [putTransaction, List.length_append] at h
  have hid := faithful_word.reads t.id (by omega)
  exact hid.bind (((faithful_list faithful_operation).reads t.operations (by omega)).bind_pure _)

theorem reads_getTypeIndex (i : TypeIndex) (h : (putTypeIndex i).length < 2 ^ 64) :
    Reads getTypeIndex (putTypeIndex i) i := by
  simp only [putTypeIndex, List.length_append] at h
  have htype := faithful_text.reads i.typeName (by omega)
  exact htype.bind (((faithful_list faithful_text).reads i.indexNames (by omega)).bind_pure _)

theorem reads_getDescriptor (d : TypeDescriptor) (h : (putDescriptor d).length < 2 ^ 64) :
    Reads getDescriptor (putDescriptor d) d := by
  simp only [putDescriptor, List.length_append] at h
  have htype := faithful_text.reads d.typeName (by omega)
  have hsuper := (faithful_option faithful_text).reads d.superType (by omega)
  have hproperties := (faithful_list faithful_text).reads d.properties (by omega)
  simp only [putDescriptor, List.append_assoc]
  exact htype.bind (hsuper.bind (hproperties.bind_pure _))

/-- A payload is read back from its bytes, by the reader of its own kind. -/
theorem reads_reader (p : Payload) (h : p.encode.length < 2 ^ 64) :
    Reads (reader p.kind) p.encode p := by
  cases p with
  | entry op =>
    cases op with
    | write e | update e | take e => exact (faithful_image.reads e h).map _
    | change c => exact (faithful_change.reads c h).map _
  | transaction phase t => cases phase <;> exact (reads_getTransaction t h).map _
  | batch ops => exact ((faithful_list faithful_operation).reads ops h).map _
  | typeIndex i => exact (reads_getTypeIndex i h).map _
  | typeIntroduce d => exact (reads_getDescriptor d h).map _

theorem decode_encode (p : Payload) (h : p.encode.length < 2 ^ 64) :
    decode p.kind p.encode = .ok p := by
  have hread := reads_reader p h []
  rw [List.append_nil] at hread
  rw [decode, hread]
  rfl

end Payload

end GroupReplication

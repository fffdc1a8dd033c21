import Seraph.AetherNic
import Seraph.AetherSecurityRuns

/-!
# The frames of a node

A frame is read back as it was built (`readHeader_aetherFrame`), also with a code behind it.
-/

namespace Seraph

open ByteMem Sha256

theorem length_fieldBytes (n v : ℕ) : (fieldBytes n v).length = n := by
  simp [fieldBytes]

theorem fieldBytes_succ (n v : ℕ) :
    fieldBytes (n + 1) v = UInt8.ofNat v :: fieldBytes n (v / 256) := by
  rw [fieldBytes, List.range_succ_eq_map, List.map_cons, List.map_map, pow_zero, Nat.div_one]
  refine congrArg _ (List.map_congr_left fun i _ => ?_)
  rw [Function.comp_apply, Nat.succ_eq_add_one, pow_succ', Nat.div_div_eq_div_mul]

/-- A field is read back from where it stands. -/
theorem load_of_drop {m rest : List UInt8} (n : ℕ) : ∀ {a v : ℕ},
    m.drop a = fieldBytes n v ++ rest → Memory.load (bytesAt m) a n = v % 256 ^ n := by
  induction n with
  | zero => exact fun {_ v} _ => (Nat.mod_one v).symm
  | succ n ih =>
    intro a v h
    rw [fieldBytes_succ, List.cons_append] at h
    have hbyte : bytesAt m a = UInt8.ofNat v := by
      have hget : (m.drop a).getD 0 0 = UInt8.ofNat v := by rw [h]; rfl
      rwa [List.getD_eq_getElem?_getD, List.getElem?_drop, Nat.add_zero,
        ← List.getD_eq_getElem?_getD] at hget
    have htail : m.drop (a + 1) = fieldBytes n (v / 256) ++ rest := by
      rw [← List.drop_drop, h]
      rfl
    have hpow : v % 256 ^ (n + 1) = v % 256 + 256 * (v / 256 % 256 ^ n) := by
      rw [pow_succ', Nat.mod_mul]
    have hlow : (UInt8.ofNat v).toNat = v % 256 := UInt8.toNat_ofNat'
    rw [Memory.load, hbyte, ih htail, hpow, hlow]

/-- The fields of a frame, one after the other. -/
theorem get_of_drop {m rest : List UInt8} {f : StructField} {v : ℕ}
    (h : m.drop f.off = fieldBytes f.width v ++ rest) :
    Memory.get (bytesAt m) 0 f = v % 256 ^ f.width ∧ m.drop (f.off + f.width) = rest := by
  refine ⟨?_, ?_⟩
  · rw [Memory.get, Nat.zero_add]
    exact load_of_drop _ h
  · rw [← List.drop_drop, h, List.drop_left' (length_fieldBytes _ _)]

variable (src dst type : ℕ) (seqNum : UInt32) (offset generation dataLen flags : ℕ)
  (payload : List UInt8)

/-- The 50 bytes in front of the payload. -/
theorem length_aetherFrame :
    (aetherFrame src dst type seqNum offset generation dataLen flags payload).length =
      aetherFrameSize + payload.length := by
  simp only [aetherFrame, aetherNodeToMac, List.length_append, length_fieldBytes, List.length_cons,
    List.length_nil, aetherFrameSize]

theorem aetherFrame_append (rest : List UInt8) :
    aetherFrame src dst type seqNum offset generation dataLen flags payload ++ rest =
      aetherFrame src dst type seqNum offset generation dataLen flags [] ++ (payload ++ rest) := by
  simp only [aetherFrame, List.append_assoc, List.nil_append]

/-- A frame is read as it was built. -/
theorem readHeader_aetherFrame (rest : List UInt8) :
    readHeader (aetherFrame src dst type seqNum offset generation dataLen flags payload ++ rest) =
      some ⟨aetherMagicValue, aetherVersionValue, type % 2 ^ 16, seqNum, src % 2 ^ 16,
        dst % 2 ^ 16, offset % 2 ^ 64, flags % 2 ^ 16, dataLen % 2 ^ 16, generation % 2 ^ 64⟩ := by
  have hlen := length_aetherFrame src dst type seqNum offset generation dataLen flags []
  rw [List.length_nil, Nat.add_zero] at hlen
  rw [aetherFrame_append]
  obtain ⟨m, hm⟩ : ∃ m, m = aetherFrame src dst type seqNum offset generation dataLen flags [] :=
    ⟨_, rfl⟩
  rw [← hm] at hlen ⊢
  have hread : readBytes (m ++ (payload ++ rest)) 0 aetherFrameSize = some m := by
    rw [readBytes, if_pos (by rw [List.length_append, hlen]; omega), List.drop_zero, ← hlen,
      List.take_left]
  have hmac : m.drop AetherField.magic.off = fieldBytes 4 aetherMagicValue ++
      (fieldBytes 2 aetherVersionValue ++ (fieldBytes 2 type ++ (fieldBytes 4 seqNum.toNat ++
      (fieldBytes 2 src ++ (fieldBytes 2 dst ++ (fieldBytes 8 offset ++ (fieldBytes 2 flags ++
      (fieldBytes 2 dataLen ++ (fieldBytes 8 generation ++ []))))))))) := by
    rw [hm]
    simp only [aetherFrame, List.append_assoc]
    rfl
  obtain ⟨hmagic, hdrop⟩ := get_of_drop hmac
  obtain ⟨hversion, hdrop⟩ := get_of_drop (f := AetherField.version) hdrop
  obtain ⟨htype, hdrop⟩ := get_of_drop (f := AetherField.type) hdrop
  obtain ⟨hseq, hdrop⟩ := get_of_drop (f := AetherField.seqNum) hdrop
  obtain ⟨hsrc, hdrop⟩ := get_of_drop (f := AetherField.srcNode) hdrop
  obtain ⟨hdst, hdrop⟩ := get_of_drop (f := AetherField.dstNode) hdrop
  obtain ⟨hoffset, hdrop⟩ := get_of_drop (f := AetherField.offset) hdrop
  obtain ⟨hflags, hdrop⟩ := get_of_drop (f := AetherField.flags) hdrop
  obtain ⟨hdata, hdrop⟩ := get_of_drop (f := AetherField.dataLen) hdrop
  obtain ⟨hgen, -⟩ := get_of_drop (f := AetherField.generation) hdrop
  have hnum : UInt32.ofNat (seqNum.toNat % 256 ^ AetherField.seqNum.width) = seqNum := by
    have hlt : seqNum.toNat < 2 ^ 32 := seqNum.toNat_lt
    have hpow : 256 ^ AetherField.seqNum.width = 2 ^ 32 := rfl
    rw [hpow, Nat.mod_eq_of_lt hlt]
    exact UInt32.ofNat_toNat
  rw [readHeader, hread, Option.map_some]
  dsimp only
  rw [hmagic, hversion, htype, hseq, hsrc, hdst, hoffset, hflags, hdata, hgen, hnum]
  rfl

end Seraph

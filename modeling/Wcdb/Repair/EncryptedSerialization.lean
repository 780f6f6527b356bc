import Mathlib.Data.List.Basic
import Wcdb.Base.FixedInt
import Wcdb.Base.Serialization

/-!
# Encrypted materials

`EncryptedSerializable` cuts the bytes of a material into the usable parts of database pages and
has SQLCipher's page codec encrypt each page; `DecryptedDeserializable` undoes this. The codec
keeps the first sixteen bytes of the first page for its salt, and the reserve at the end of each
page for itself.

The codec is a parameter: `CipherDelegate.Inverts` says what the code relies on, that decrypting an
encrypted page brings back its usable bytes. The bytes come back followed by zero bytes only
(`decryptPages_encryptPages`), as long as the salt fits the usable part of a page: below that the
length of the first `memcpy` wraps around.
-/

namespace Wcdb.Repair

open Serialization

def saltBytes : ℕ := 16

/-- A subtraction of `size_t`s. -/
def sizeSub (a b : ℕ) : ℕ := (a + 2 ^ 64 - b) % 2 ^ 64

/-- A codec context of SQLCipher: `sqlite3Codec` on a page of a number. Decryption fails with a
null pointer. -/
structure Codec where
  reserveBytes : ℕ
  encrypt : ℕ → List UInt8 → List UInt8
  decrypt : ℕ → List UInt8 → Option (List UInt8)

/-- `CipherDelegate`: the codec contexts of a key by salt, and the salt in use. `pageSize` is zero
after an error; `switches` tells whether the handle can be reopened with a salt. -/
structure CipherDelegate where
  pageSize : ℕ
  salt : List UInt8
  context : List UInt8 → Codec
  switches : List UInt8 → Bool

namespace CipherDelegate

def codec (c : CipherDelegate) : Codec := c.context c.salt

def usableSize (c : CipherDelegate) : ℕ := c.pageSize - c.codec.reserveBytes

/-- The first bytes of a page that the codec keeps for itself. -/
def skip (pageNo : ℕ) : ℕ := if pageNo = 1 then saltBytes else 0

/-- **What is assumed of the codec.** Decrypting inverts encrypting on the usable bytes of each
page; an encrypted page has the size of a page, starts with the salt if it is the first, and has a
byte that is not zero (a page of zeros is how a failed encryption shows). A handle can be reopened
with its own salt. -/
structure Inverts (c : CipherDelegate) : Prop where
  length_encrypt : ∀ pageNo page, page.length = c.pageSize →
    (c.codec.encrypt pageNo page).length = c.pageSize
  salt_encrypt : ∀ page, page.length = c.pageSize →
    (c.codec.encrypt 1 page).take saltBytes = c.salt
  encrypt_ne_zero : ∀ pageNo page, page.length = c.pageSize →
    ∃ byte ∈ c.codec.encrypt pageNo page, byte ≠ 0
  decrypt_encrypt : ∀ pageNo page, page.length = c.pageSize →
    ∃ out, c.codec.decrypt pageNo (c.codec.encrypt pageNo page) = some out ∧
      (out.drop (skip pageNo)).take (c.usableSize - skip pageNo) =
        (page.drop (skip pageNo)).take (c.usableSize - skip pageNo)
  switches_salt : c.switches c.salt = true

end CipherDelegate

open CipherDelegate (skip)

/-! ### Encrypting -/

/-- Why no encrypted data is returned. The last is not a return: a `memcpy` leaves its buffers. -/
inductive EncryptFailure where
  | empty
  | cipher
  | memory
  | page (pageNo : ℕ)
  | outOfBounds
  deriving DecidableEq, Repr

/-- The length copied to a page. -/
def copiedLength (size usableSize pageNo : ℕ) : ℕ :=
  if pageNo = 1 then
    if usableSize > size + saltBytes then size else sizeSub usableSize saltBytes
  else if pageNo * usableSize > size + saltBytes then
    sizeSub (size + saltBytes) ((pageNo - 1) * usableSize)
  else usableSize

/-- A page of zeros with `length` bytes of the data copied behind what the codec keeps. -/
def fillPage (pageSize : ℕ) (rawData : List UInt8) (pageNo dataAddr length : ℕ) :
    Option (List UInt8) :=
  if dataAddr + length ≤ rawData.length ∧ skip pageNo + length ≤ pageSize then
    some (List.replicate (skip pageNo) 0 ++ ((rawData.drop dataAddr).take length ++
      List.replicate (pageSize - (skip pageNo + length)) 0))
  else none

/-- The page loop from page `pageNo` on, with `dataAddr` at the next byte to copy. -/
def encryptPages (c : CipherDelegate) (rawData : List UInt8) :
    ℕ → ℕ → ℕ → Except EncryptFailure (List UInt8)
  | 0, _, _ => .ok []
  | n + 1, pageNo, dataAddr =>
      match fillPage c.pageSize rawData pageNo dataAddr
          (copiedLength rawData.length c.usableSize pageNo) with
      | none => .error .outOfBounds
      | some page =>
          let pData := c.codec.encrypt pageNo page
          if pData.all (· = 0) then .error (.page pageNo)
          else
            match encryptPages c rawData n (pageNo + 1)
                (dataAddr + (c.usableSize - skip pageNo)) with
            | .ok rest => .ok (pData ++ rest)
            | .error e => .error e

def pageCount (size usableSize : ℕ) : ℤ := int32 ((size + saltBytes - 1) / usableSize) + 1

/-- `EncryptedSerializable::encryptedSerialize` on the serialized bytes. -/
def encryptedSerialize (alloc : ℕ → Bool) (c : CipherDelegate) (rawData : List UInt8) :
    Except EncryptFailure (List UInt8) :=
  if rawData = [] then .error .empty
  else if c.pageSize = 0 then .error .cipher
  else
    let pages := pageCount rawData.length c.usableSize
    if alloc (pages * c.pageSize % 2 ^ 64).toNat then encryptPages c rawData pages.toNat 1 0
    else .error .memory

/-! ### Decrypting -/

/-- Why the data cannot be decrypted; `element` is what `decryptFail` is told. -/
inductive DecryptFailure where
  | cipher
  | data
  | page (pageNo : ℕ)
  | memory
  | outOfBounds
  deriving DecidableEq, Repr

def DecryptFailure.element : DecryptFailure → Option String
  | .data => some "Data"
  | .page pageNo => some ("Page " ++ toString pageNo)
  | _ => none

/-- The page loop. -/
def decryptPages (c : CipherDelegate) :
    ℕ → ℕ → List UInt8 → Except DecryptFailure (List UInt8)
  | 0, _, _ => .ok []
  | n + 1, pageNo, rawData =>
      match c.codec.decrypt pageNo (rawData.take c.pageSize) with
      | none => .error (.page pageNo)
      | some pData =>
          if c.usableSize < skip pageNo then .error .outOfBounds
          else
            match decryptPages c n (pageNo + 1) (rawData.drop c.pageSize) with
            | .ok rest => .ok ((pData.drop (skip pageNo)).take (c.usableSize - skip pageNo) ++ rest)
            | .error e => .error e

def switchCipherSalt (c : CipherDelegate) (salt : List UInt8) : Option CipherDelegate :=
  if c.switches salt then some { c with salt } else none

/-- The data that `DecryptedDeserializable::decryptedDeserialize` hands to `deserialize`. -/
def decryptedData (alloc : ℕ → Bool) (c : CipherDelegate) (reloadSalt : Bool)
    (rawData : List UInt8) : Except DecryptFailure (List UInt8) :=
  if c.pageSize = 0 then .error .cipher
  else if rawData.length % c.pageSize ≠ 0 then .error .data
  else
    match (if reloadSalt then switchCipherSalt c (rawData.take saltBytes) else some c) with
    | none => .error .cipher
    | some c =>
        let pages := int32 (rawData.length / c.pageSize)
        if alloc ((pages * c.usableSize - saltBytes) % 2 ^ 64).toNat then
          decryptPages c pages.toNat 1 rawData
        else .error .memory

/-- `DecryptedDeserializable::decryptedDeserialize`, with the `deserialize` of the class. -/
def decryptedDeserialize {α : Type} (alloc : ℕ → Bool) (c : CipherDelegate) (reloadSalt : Bool)
    (deserialize : List UInt8 → α) (rawData : List UInt8) : Except DecryptFailure α :=
  match decryptedData alloc c reloadSalt rawData with
  | .ok data => .ok (deserialize data)
  | .error e => .error e

/-! ### The bytes come back -/

theorem sizeSub_of_le {a b : ℕ} (hb : b ≤ a) (ha : a < 2 ^ 64) : sizeSub a b = a - b := by
  rw [sizeSub]
  omega

section RoundTrip

variable {c : CipherDelegate} {rawData : List UInt8}

/-- Where the data of a page starts. -/
def dataStart (usableSize pageNo : ℕ) : ℕ := (pageNo - 1) * usableSize - saltBytes

theorem dataStart_succ {usableSize pageNo : ℕ} (hsalt : saltBytes ≤ usableSize)
    (hpage : 1 ≤ pageNo) :
    dataStart usableSize (pageNo + 1) =
      dataStart usableSize pageNo + (usableSize - skip pageNo) := by
  rcases Nat.eq_or_lt_of_le hpage with rfl | hlt
  · simp [dataStart, skip]
  · obtain ⟨k, rfl⟩ : ∃ k, pageNo = k + 2 := ⟨pageNo - 2, by omega⟩
    have hmul : (k + 2) * usableSize = (k + 1) * usableSize + usableSize := by
      rw [Nat.add_mul, Nat.add_mul]
      omega
    have hle : usableSize ≤ (k + 1) * usableSize := Nat.le_mul_of_pos_left _ (Nat.succ_pos k)
    simp only [dataStart, skip, Nat.add_sub_cancel, show k + 2 - 1 = k + 1 by omega,
      if_neg (show ¬k + 2 = 1 by omega)]
    omega

/-- To each page goes what fits of the data still to be copied. -/
theorem copiedLength_eq {size usableSize pageNo : ℕ} (hsalt : saltBytes ≤ usableSize)
    (hpage : 1 ≤ pageNo) (hstart : (pageNo - 1) * usableSize < size + saltBytes)
    (hsize : size + saltBytes < 2 ^ 64) (husable : usableSize < 2 ^ 64) :
    copiedLength size usableSize pageNo =
      min (size - dataStart usableSize pageNo) (usableSize - skip pageNo) := by
  rcases Nat.eq_or_lt_of_le hpage with rfl | hlt
  · simp only [copiedLength, dataStart, skip, if_true, sizeSub_of_le hsalt husable]
    split <;> omega
  · obtain ⟨k, rfl⟩ : ∃ k, pageNo = k + 2 := ⟨pageNo - 2, by omega⟩
    have hmul : (k + 2) * usableSize = (k + 1) * usableSize + usableSize := by
      rw [Nat.add_mul, Nat.add_mul]
      omega
    have hle : usableSize ≤ (k + 1) * usableSize := Nat.le_mul_of_pos_left _ (Nat.succ_pos k)
    simp only [show k + 2 - 1 = k + 1 by omega] at hstart
    simp only [copiedLength, dataStart, skip, if_neg (show ¬k + 2 = 1 by omega),
      show k + 2 - 1 = k + 1 by omega, hmul, sizeSub_of_le hstart.le hsize]
    split <;> omega

/-- A chunk filled up with zeros, followed by the rest of the data and zeros. -/
theorem chunk_append {data : List UInt8} {size capacity : ℕ} (hsize : data.length = size) (k : ℕ) :
    data.take (min size capacity) ++ List.replicate (capacity - min size capacity) 0 ++
      (data.drop capacity ++ List.replicate k 0) =
    data ++ List.replicate (capacity - min size capacity + k) 0 := by
  rcases Nat.le_total capacity size with hle | hle
  · rw [Nat.min_eq_right hle, Nat.sub_self, Nat.zero_add, List.replicate_zero, List.append_nil,
      ← List.append_assoc, List.take_append_drop]
  · rw [Nat.min_eq_left hle, List.take_of_length_le hsize.le,
      List.drop_eq_nil_of_le (hsize.le.trans hle), List.nil_append, List.append_assoc,
      List.replicate_add]

/-- The usable bytes of a filled page are the copied data and zeros. -/
theorem fillPage_spec {pageSize usableSize pageNo dataAddr length : ℕ}
    (hdata : dataAddr + length ≤ rawData.length) (hfit : skip pageNo + length ≤ usableSize)
    (hsize : usableSize ≤ pageSize) :
    ∃ page, fillPage pageSize rawData pageNo dataAddr length = some page ∧
      page.length = pageSize ∧
      (page.drop (skip pageNo)).take (usableSize - skip pageNo) =
        (rawData.drop dataAddr).take length ++
          List.replicate (usableSize - skip pageNo - length) 0 := by
  have hlength : ((rawData.drop dataAddr).take length).length = length := by
    rw [List.length_take, List.length_drop]
    omega
  refine ⟨_, if_pos ⟨hdata, by omega⟩, ?_, ?_⟩
  · simp only [List.length_append, List.length_replicate, hlength]
    omega
  · rw [List.drop_left' (by simp), List.take_append, hlength,
      List.take_of_length_le (by omega), List.take_replicate]
    congr 2
    omega

/-- **Decrypting the encrypted pages** from a page on returns the data from there on, followed by
zero bytes. The induction is on the number of pages left; each one starts within the data. -/
theorem decryptPages_encryptPages (hc : c.Inverts) (hsalt : saltBytes ≤ c.usableSize)
    (husable : c.usableSize < 2 ^ 64) (hsize : rawData.length + saltBytes < 2 ^ 64) (n pageNo : ℕ)
    (hpage : 1 ≤ pageNo) (henough : rawData.length + saltBytes ≤ (pageNo + n - 1) * c.usableSize)
    (hneeded : 0 < n → (pageNo + n - 2) * c.usableSize < rawData.length + saltBytes) :
    ∃ pages k, encryptPages c rawData n pageNo (dataStart c.usableSize pageNo) = .ok pages ∧
      pages.length = n * c.pageSize ∧
      decryptPages c n pageNo pages =
        .ok (rawData.drop (dataStart c.usableSize pageNo) ++ List.replicate k 0) ∧
      rawData.length - dataStart c.usableSize pageNo + k ≤ n * c.usableSize := by
  induction n generalizing pageNo with
  | zero =>
    have hpast : rawData.length ≤ dataStart c.usableSize pageNo := by
      simp only [Nat.add_zero] at henough
      simp only [dataStart]
      omega
    exact ⟨[], 0, rfl, by simp, by simp [decryptPages, List.drop_eq_nil_of_le hpast], by omega⟩
  | succ n ih =>
    have hstart : (pageNo - 1) * c.usableSize < rawData.length + saltBytes := by
      refine lt_of_le_of_lt (Nat.mul_le_mul_right _ ?_) (hneeded n.succ_pos)
      omega
    have hpageSize : c.usableSize ≤ c.pageSize := Nat.sub_le _ _
    have hcopied := copiedLength_eq hsalt hpage hstart hsize husable
    have hskip : skip pageNo ≤ c.usableSize := by
      simp only [skip]
      split <;> omega
    set start := dataStart c.usableSize pageNo with hstart'
    have hle : start ≤ rawData.length := by
      simp only [hstart', dataStart]
      omega
    obtain ⟨page, hfill, hlength, hcopy⟩ := @fillPage_spec rawData c.pageSize c.usableSize pageNo
      start (copiedLength rawData.length c.usableSize pageNo) (by omega) (by omega) hpageSize
    obtain ⟨out, hdecrypt, hout⟩ := hc.decrypt_encrypt pageNo page hlength
    have hnonzero : (c.codec.encrypt pageNo page).all (· = 0) = false := by
      obtain ⟨byte, hmem, hne⟩ := hc.encrypt_ne_zero pageNo page hlength
      exact List.all_eq_false.mpr ⟨byte, hmem, by simpa using hne⟩
    have hlength' := hc.length_encrypt pageNo page hlength
    obtain ⟨rest, k, hrest, hlengthRest, hdecryptRest, hk⟩ := ih (pageNo + 1) (by omega)
      (by rwa [show pageNo + 1 + n - 1 = pageNo + (n + 1) - 1 by omega])
      (fun _ => by
        rw [show pageNo + 1 + n - 2 = pageNo + (n + 1) - 2 by omega]
        exact hneeded n.succ_pos)
    rw [dataStart_succ hsalt hpage, ← hstart'] at hrest hdecryptRest hk
    refine ⟨c.codec.encrypt pageNo page ++ rest,
      c.usableSize - skip pageNo - copiedLength rawData.length c.usableSize pageNo + k,
        ?_, ?_, ?_, ?_⟩
    · simp only [encryptPages, hfill, hnonzero, Bool.false_eq_true, if_false, hrest]
    · rw [List.length_append, hlength', hlengthRest, Nat.succ_mul, Nat.add_comm]
    · simp only [decryptPages, List.take_left' hlength', hdecrypt, if_neg (Nat.not_lt.mpr hskip),
        List.drop_left' hlength', hdecryptRest, hout, hcopy]
      rw [hcopied, ← List.drop_drop]
      congr 1
      exact chunk_append (by rw [List.length_drop]) k
    · rw [Nat.succ_mul]
      omega

/-- The number of pages is what the data and the salt need. -/
theorem pageCount_spec {size usableSize : ℕ} (husable : 0 < usableSize)
    (hcount : (size + saltBytes - 1) / usableSize + 1 < 2 ^ 31) :
    ∃ n, pageCount size usableSize = (n + 1 : ℕ) ∧ n + 1 < 2 ^ 31 ∧
      size + saltBytes ≤ (n + 1) * usableSize ∧ n * usableSize < size + saltBytes := by
  refine ⟨(size + saltBytes - 1) / usableSize, ?_, hcount, ?_, ?_⟩
  · rw [pageCount, int32_of_lt (by omega)]
    simp
  · have hlt := Nat.lt_div_mul_add (a := size + saltBytes - 1) husable
    rw [Nat.add_mul, Nat.one_mul]
    simp only [saltBytes] at hlt ⊢
    omega
  · have hle := Nat.div_mul_le_self (size + saltBytes - 1) usableSize
    simp only [saltBytes] at hle ⊢
    omega

theorem length_fillPage {pageSize pageNo dataAddr length : ℕ} {page : List UInt8}
    (h : fillPage pageSize rawData pageNo dataAddr length = some page) :
    page.length = pageSize := by
  rw [fillPage] at h
  split at h
  · next hfit =>
    cases h
    simp only [List.length_append, List.length_replicate, List.length_take, List.length_drop]
    omega
  · cases h

/-- The encrypted data starts with the salt. -/
theorem encryptPages_salt (hc : c.Inverts) (hsalt : saltBytes ≤ c.pageSize) {n dataAddr : ℕ}
    {pages : List UInt8} (h : encryptPages c rawData (n + 1) 1 dataAddr = .ok pages) :
    pages.take saltBytes = c.salt := by
  rw [encryptPages] at h
  split at h
  · cases h
  next page hfill =>
  have hlength := length_fillPage hfill
  dsimp only at h
  split at h
  · cases h
  split at h
  · cases h
    rw [List.take_append_of_le_length (by rw [hc.length_encrypt 1 page hlength]; exact hsalt),
      hc.salt_encrypt page hlength]
  · cases h

/-- The pages of the data can be counted with an `int` and addressed. -/
def FitsPages (c : CipherDelegate) (size : ℕ) : Prop :=
  (size + saltBytes - 1) / c.usableSize + 1 < 2 ^ 31 ∧
    ((size + saltBytes - 1) / c.usableSize + 1) * c.pageSize < 2 ^ 63

/-- **The data comes back followed only by zero bytes**, whether or not the salt is read again. -/
theorem decryptedData_encryptedSerialize {alloc : ℕ → Bool} (halloc : ∀ n, alloc n = true)
    (hc : c.Inverts) (hsalt : saltBytes ≤ c.usableSize) (hne : rawData ≠ [])
    (hfits : FitsPages c rawData.length) :
    ∃ encrypted k, encryptedSerialize alloc c rawData = .ok encrypted ∧
      (∀ reloadSalt, decryptedData alloc c reloadSalt encrypted =
        .ok (rawData ++ List.replicate k 0)) ∧
      (rawData ++ List.replicate k (0 : UInt8)).length < 2 ^ 63 := by
  have husable : c.usableSize ≤ c.pageSize := Nat.sub_le _ _
  have hpos : 0 < c.usableSize := lt_of_lt_of_le (by decide) hsalt
  have hpageSize : c.pageSize ≠ 0 := by omega
  obtain ⟨n, hcount, hn, henough, hneeded⟩ := pageCount_spec hpos hfits.1
  have htotal : (n + 1) * c.pageSize < 2 ^ 63 := by
    have hn' : (n + 1 : ℕ) = (rawData.length + saltBytes - 1) / c.usableSize + 1 := by
      have hcount' := hcount
      rw [pageCount, int32_of_lt (by have := hfits.1; omega)] at hcount'
      omega
    rw [hn']
    exact hfits.2
  have hmul : (n + 1) * c.usableSize ≤ (n + 1) * c.pageSize := Nat.mul_le_mul_left _ husable
  have hsmall : c.usableSize ≤ (n + 1) * c.usableSize := Nat.le_mul_of_pos_left _ n.succ_pos
  obtain ⟨pages, k, hpages, hlength, hdecrypt, hk⟩ := @decryptPages_encryptPages c rawData hc hsalt
    (by omega) (by omega) (n + 1) 1 le_rfl
    (by rwa [Nat.add_sub_cancel_left]) (fun _ => by rwa [show 1 + (n + 1) - 2 = n by omega])
  have hzero : dataStart c.usableSize 1 = 0 := by simp [dataStart]
  rw [hzero] at hpages hdecrypt hk
  refine ⟨pages, k, ?_, fun reloadSalt => ?_, ?_⟩
  · rw [encryptedSerialize, if_neg hne, if_neg hpageSize, hcount]
    simp only [halloc, if_true, Int.toNat_natCast, hpages]
  · have hswitch : (if reloadSalt then switchCipherSalt c (pages.take saltBytes) else some c) =
        some c := by
      cases reloadSalt with
      | false => rfl
      | true =>
        rw [encryptPages_salt hc (hsalt.trans husable) hpages, switchCipherSalt]
        simp [hc.switches_salt]
    have hdiv : pages.length / c.pageSize = n + 1 := by
      rw [hlength, Nat.mul_div_cancel _ (Nat.pos_of_ne_zero hpageSize)]
    rw [decryptedData, if_neg hpageSize, if_neg (by rw [hlength, Nat.mul_mod_left]; simp), hswitch]
    simp only [hdiv, int32_of_lt hn, halloc, if_true, Int.toNat_natCast, hdecrypt, List.drop_zero]
  · rw [List.length_append, List.length_replicate]
    omega

end RoundTrip

end Wcdb.Repair

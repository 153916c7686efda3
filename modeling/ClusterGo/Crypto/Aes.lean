import ClusterGo.Lib.BigEndian
import ClusterGo.Lib.Chaining
import ClusterGo.Lib.Fallible
import ClusterGo.Rpc.Bytes

/-!
# Keys and encryption

`pkg/crypto/aes.go`.  The handshake of two nodes is encrypted with AES-GCM,
under a key that `LoadKey` brings to 32 bytes.  The older functions for AES
in CBC mode bring the key to a size of their own and put the length of the
plain text in front of it.

The block cipher and GCM are those of the Go library, which come as
parameters.  `Aes.Lawful` and `Gcm.Lawful` say what is used of them.  A
ciphertext that GCM opens is the one that it makes of the plain text: the
tag is a function of the key, the nonce and the ciphertext.

`rand` is what `rand.Reader` delivers, `none` when it fails.  A slice
expression may reach beyond the length of a slice, up to its capacity, so
the decrypter also gets the bytes that follow the ciphertext in its array.
-/

namespace ClusterGo.Crypto

open BigEndian
open Rpc (Bytes)

/-- The block cipher, with the key in front. -/
structure Aes where
  encrypt : Bytes → Bytes → Bytes
  decrypt : Bytes → Bytes → Bytes

/-- `aes.BlockSize`. -/
def blockSize : Nat := 16

structure Aes.Lawful (aes : Aes) : Prop where
  length : ∀ key b, b.length = blockSize → (aes.encrypt key b).length = blockSize
  decrypt_encrypt : ∀ key b, b.length = blockSize → aes.decrypt key (aes.encrypt key b) = b

/-- The authenticated cipher: `Seal` and `Open` with a key, a nonce and a
text. -/
structure Gcm where
  sealText : Bytes → Bytes → Bytes → Bytes
  openText : Bytes → Bytes → Bytes → Option Bytes

/-- `gcm.NonceSize()`. -/
def nonceSize : Nat := 12

/-- The length of the tag. -/
def tagSize : Nat := 16

structure Gcm.Lawful (gcm : Gcm) : Prop where
  length : ∀ key nonce plain, (gcm.sealText key nonce plain).length = plain.length + tagSize
  open_iff : ∀ key nonce sealed plain, nonce.length = nonceSize →
    (gcm.openText key nonce sealed = some plain ↔ sealed = gcm.sealText key nonce plain)

inductive Err where
  | keySize (n : Nat)
  | rand
  | authentication
  | text (s : String)
deriving DecidableEq, Repr

/-- `aes.NewCipher`, as far as it fails. -/
def newCipher (key : Bytes) : Except Err Unit :=
  if key.length = 16 ∨ key.length = 24 ∨ key.length = 32 then .ok ()
  else .error (.keySize key.length)

/-! ## The key of the handshake -/

def minKeySize : Nat := 32

/-- `LoadKey`, with the value of the environment variable, which is empty
when it is not set. -/
def loadKey (env dflt : Bytes) : Bytes :=
  let raw := if env ≠ [] then env else dflt
  if raw.length ≥ minKeySize then
    if raw.length > 32 then raw.take 32 else raw
  else raw ++ List.replicate (minKeySize - raw.length) 0

/-- Every key fits AES-256. -/
theorem length_loadKey (env dflt : Bytes) : (loadKey env dflt).length = 32 := by
  unfold loadKey minKeySize
  dsimp only
  generalize (if env ≠ [] then env else dflt) = raw
  split_ifs with hmin hmax
  · rw [List.length_take]
    omega
  · omega
  · rw [List.length_append, List.length_replicate]
    omega

theorem newCipher_loadKey (env dflt : Bytes) : newCipher (loadKey env dflt) = .ok () := by
  rw [newCipher, if_pos (Or.inr (Or.inr (length_loadKey env dflt)))]

/-! ## GCM -/

/-- `AESEncrypt`: the nonce, and what GCM makes of the text. -/
def aesEncrypt (gcm : Gcm) (rand : Option Bytes) (key plain : Bytes) : Except Err Bytes := do
  newCipher key
  match rand with
  | none => .error .rand
  | some nonce => return nonce ++ gcm.sealText key nonce plain

/-- `AESDecrypt`. -/
def aesDecrypt (gcm : Gcm) (key cipher : Bytes) : Except Err Bytes := do
  newCipher key
  if cipher.length < nonceSize then .error (.text "ciphertext too short")
  else
    match gcm.openText key (cipher.take nonceSize) (cipher.drop nonceSize) with
    | none => .error .authentication
    | some plain => return plain

/-- The text of a ciphertext is the one that it was made of. -/
theorem aesDecrypt_eq_ok {gcm : Gcm} (hgcm : gcm.Lawful) {key cipher plain : Bytes}
    (hkey : newCipher key = .ok ()) :
    aesDecrypt gcm key cipher = .ok plain ↔
      ∃ nonce, nonce.length = nonceSize ∧ cipher = nonce ++ gcm.sealText key nonce plain := by
  constructor
  · intro h
    simp only [aesDecrypt, hkey, Fallible.ok_bind] at h
    split_ifs at h with hshort
    split at h
    · cases h
    · rename_i hopen
      cases h
      have hlen : (cipher.take nonceSize).length = nonceSize := by
        rw [List.length_take]
        omega
      have hsealed := (hgcm.open_iff _ _ _ _ hlen).mp hopen
      exact ⟨_, hlen, hsealed ▸ (List.take_append_drop _ _).symm⟩
  · intro h
    obtain ⟨nonce, hlen, rfl⟩ := h
    have hlong : ¬ (nonce ++ gcm.sealText key nonce plain).length < nonceSize := by
      rw [List.length_append]
      omega
    have hopen := (hgcm.open_iff key nonce _ plain hlen).mpr rfl
    simp only [aesDecrypt, hkey, Fallible.ok_bind, if_neg hlong, List.take_left' hlen,
      List.drop_left' hlen, hopen]
    rfl

/-! ## CBC -/

def fixKey (key : Bytes) : Bytes :=
  if key.length > 32 then key.take 32
  else
    let size := if key.length < 16 then 16 else if key.length < 24 then 24 else 32
    let padding := size - key.length % size
    key ++ List.replicate padding (UInt8.ofNat padding)

/-- A key of 32 bytes becomes one of 64, which no cipher takes.  Every other
key is brought to a size that fits. -/
theorem newCipher_fixKey (key : Bytes) :
    newCipher (fixKey key) = if key.length = 32 then .error (.keySize 64) else .ok () := by
  have hlen : (fixKey key).length =
      if key.length < 16 then 16 else if key.length < 24 then 24
        else if key.length = 32 then 64 else 32 := by
    unfold fixKey
    split_ifs <;> simp <;> omega
  unfold newCipher
  rw [hlen]
  split_ifs <;> simp_all

def paddingData (text : Bytes) : Bytes :=
  let ret := encode 4 text.length ++ text
  let padding := blockSize - ret.length % blockSize
  ret ++ List.replicate padding (UInt8.ofNat padding)

/-- The padded data are whole blocks, at least one. -/
theorem length_paddingData (text : Bytes) :
    (paddingData text).length = ((text.length + 4) / blockSize + 1) * blockSize := by
  simp only [paddingData, blockSize, List.length_append, encode_length, List.length_replicate]
  omega

/-- `CryptBlocks` of the encrypter. -/
def Aes.encryptBlocks (aes : Aes) (key iv src : Bytes) : Bytes :=
  Chaining.encrypt (aes.encrypt key) (· ^^^ ·) blockSize (src.length / blockSize) iv src

/-- `CryptBlocks` of the decrypter. -/
def Aes.decryptBlocks (aes : Aes) (key iv src : Bytes) : Bytes :=
  Chaining.decrypt (aes.decrypt key) (· ^^^ ·) blockSize (src.length / blockSize) iv src

def aesCBCEncrypt (aes : Aes) (rand : Option Bytes) (key plain : Bytes) : Except Err Bytes := do
  let key := fixKey key
  let plain := paddingData plain
  newCipher key
  match rand with
  | none => .error .rand
  | some iv => return iv ++ aes.encryptBlocks key iv plain

/-- A slice expression on a slice that `spare` follows in its array. -/
def slice (bs spare : Bytes) (low high : Nat) : Option Bytes :=
  if high ≤ bs.length + spare.length then some (((bs ++ spare).take high).drop low) else none

/-- The text behind its length.  The length is whatever the bytes say. -/
def readText (text spare : Bytes) : Option Bytes :=
  (slice text spare 0 4).bind fun head => slice text spare 4 (4 + decode head)

/-- How the decrypter ends without a text. -/
inductive Stop where
  | err (e : Err)
  | panic
deriving DecidableEq, Repr

/-- `AESCBCDecrypter`. -/
def aesCBCDecrypter (aes : Aes) (key cipher spare : Bytes) : Except Stop Bytes :=
  let key := fixKey key
  match newCipher key with
  | .error e => .error (.err e)
  | .ok () =>
    if cipher.length < blockSize then .error (.err (.text "ciphertext too short"))
    else
      let iv := cipher.take blockSize
      let cipher := cipher.drop blockSize
      if cipher.length % blockSize ≠ 0 then
        .error (.err (.text "ciphertext is not a multiple of the block size"))
      else
        match readText (aes.decryptBlocks key iv cipher) spare with
        | none => .error .panic
        | some plain => .ok plain

/-- The text of padded data, whatever follows them. -/
theorem readText_paddingData {text : Bytes} (htext : text.length < 256 ^ 4) (spare : Bytes) :
    readText (paddingData text) spare = some text := by
  have hpadded : ∃ pad, paddingData text = encode 4 text.length ++ text ++ pad := ⟨_, rfl⟩
  obtain ⟨pad, hpad⟩ := hpadded
  have hlen := encode_length 4 text.length
  have hhead : slice (paddingData text) spare 0 4 = some (encode 4 text.length) := by
    rw [slice, hpad, if_pos (by simp only [List.length_append, hlen]; omega), List.append_assoc,
      List.append_assoc, List.take_left' hlen, List.drop_zero]
  have hbody : slice (paddingData text) spare 4 (4 + text.length) = some text := by
    rw [slice, hpad, if_pos (by simp only [List.length_append, hlen]; omega), List.append_assoc,
      List.take_left' (by rw [List.length_append, hlen]), List.drop_left' hlen]
  rw [readText, hhead, Option.bind_some, decode_encode_of_lt htext, hbody]

/-- Chaining is undone block by block. -/
theorem decryptBlocks_encryptBlocks {aes : Aes} (haes : aes.Lawful) (key : Bytes) {iv : Bytes}
    (hiv : iv.length = blockSize) {n : Nat} {src : Bytes} (hsrc : src.length = n * blockSize) :
    (aes.encryptBlocks key iv src).length = n * blockSize ∧
      aes.decryptBlocks key iv (aes.encryptBlocks key iv src) = src := by
  have hcount : ∀ {bs : Bytes}, bs.length = n * blockSize → bs.length / blockSize = n := by
    intro bs hbs
    rw [hbs, Nat.mul_div_cancel n (by decide)]
  have hlen : (aes.encryptBlocks key iv src).length = n * blockSize := by
    rw [Aes.encryptBlocks, hcount hsrc]
    exact Chaining.length_encrypt (haes.length key) hiv hsrc
  refine ⟨hlen, ?_⟩
  rw [Aes.decryptBlocks, hcount hlen, Aes.encryptBlocks, hcount hsrc]
  refine Chaining.decrypt_encrypt (haes.length key) (haes.decrypt_encrypt key) ?_ hiv hsrc
  intro a b
  rw [← UInt8.xor_assoc, UInt8.xor_self, UInt8.zero_xor]

/-- The decrypter reads a text out of the blocks that its length and padding
were put around. -/
theorem aesCBCDecrypter_of_blocks {aes : Aes} {key iv blocks plain spare : Bytes}
    (hkey : newCipher (fixKey key) = .ok ()) (hiv : iv.length = blockSize)
    (hblocks : blocks.length % blockSize = 0)
    (htext : aes.decryptBlocks (fixKey key) iv blocks = paddingData plain)
    (hplain : plain.length < 256 ^ 4) :
    aesCBCDecrypter aes key (iv ++ blocks) spare = .ok plain := by
  have hlong : ¬ (iv ++ blocks).length < blockSize := by
    rw [List.length_append]
    omega
  unfold aesCBCDecrypter
  dsimp only
  rw [hkey]
  dsimp only
  rw [if_neg hlong, List.take_left' hiv, List.drop_left' hiv, if_neg (not_not.mpr hblocks), htext,
    readText_paddingData hplain]

/-- Every text comes back under every key but those of 32 bytes, under which
nothing can be encrypted. -/
theorem aesCBC_roundTrip {aes : Aes} (haes : aes.Lawful) (key iv plain spare : Bytes)
    (hiv : iv.length = blockSize) (hplain : plain.length < 256 ^ 4) :
    (key.length = 32 → aesCBCEncrypt aes (some iv) key plain = .error (.keySize 64)) ∧
      (key.length ≠ 32 → ∃ cipher, aesCBCEncrypt aes (some iv) key plain = .ok cipher ∧
        aesCBCDecrypter aes key cipher spare = .ok plain) := by
  have hkey := newCipher_fixKey key
  constructor
  · intro h32
    rw [if_pos h32] at hkey
    simp only [aesCBCEncrypt, hkey, Fallible.error_bind]
  · intro h32
    rw [if_neg h32] at hkey
    obtain ⟨hlen, hdec⟩ :=
      decryptBlocks_encryptBlocks haes (fixKey key) hiv (length_paddingData plain)
    refine ⟨iv ++ aes.encryptBlocks (fixKey key) iv (paddingData plain), ?_, ?_⟩
    · simp only [aesCBCEncrypt, hkey, Fallible.ok_bind]
      rfl
    · exact aesCBCDecrypter_of_blocks hkey hiv (by rw [hlen, Nat.mul_mod_left]) hdec hplain

/-- A block cipher without a secret: it turns the block around. -/
def turningAes : Aes := ⟨fun _ b => b.reverse, fun _ b => b.reverse⟩

theorem lawful_turningAes : turningAes.Lawful :=
  ⟨fun _ _ h => (List.length_reverse ..).trans h, fun _ _ _ => List.reverse_reverse _⟩

/-- A text of two blocks under a key of six bytes. -/
theorem aesCBC_roundTrip_twoBlocks :
    ∃ cipher, aesCBCEncrypt turningAes (some (List.replicate 16 7)) [1, 2, 3, 4, 5, 6]
        (List.replicate 20 9) = .ok cipher ∧ cipher.length = 48 ∧
      aesCBCDecrypter turningAes [1, 2, 3, 4, 5, 6] cipher [] = .ok (List.replicate 20 9) := by
  obtain ⟨cipher, henc, hdec⟩ := (aesCBC_roundTrip lawful_turningAes [1, 2, 3, 4, 5, 6]
    (List.replicate 16 7) (List.replicate 20 9) [] rfl (by decide)).2 (by decide)
  refine ⟨cipher, henc, ?_, hdec⟩
  have hlen : (aesCBCEncrypt turningAes (some (List.replicate 16 7)) [1, 2, 3, 4, 5, 6]
      (List.replicate 20 9)).map List.length = .ok 48 := by decide +kernel
  rw [henc] at hlen
  exact Except.ok.inj hlen

end ClusterGo.Crypto

import HxdNg.Identity.Sealed

/-!
# The published test vectors

`docs/identity-test-vectors.json` prints values of Ed25519, SHA-256 and X25519 for a few keys and
messages, and one box HPKE sealed. `Table.primitives` are the primitives a table of such values
fixes, correct whatever the table holds (`Table.correct`), and `BoxRow.hpke` the HPKE one box does
(`BoxRow.correct`); `vectors` and `boxRow` hold the values printed.
-/

namespace HxdNg.Identity

open Cbor

/-- Values of the primitives at finitely many inputs. -/
structure Table where
  publicKeys : List (Bytes 32 × PublicKey)
  signatures : List ((PublicKey × List UInt8) × Signature)
  hashes : List (List UInt8 × Bytes 32)
  encKeys : List (Bytes 32 × Bytes 32)

namespace Table

def lookup {α β : Type} [DecidableEq α] (rows : List (α × β)) (default : β) (a : α) : β :=
  ((rows.find? fun r => r.1 = a).map Prod.snd).getD default

def primitives (t : Table) : Primitives where
  sha256 b := lookup t.hashes (Bytes.replicate 32 0) b
  ed25519Public seed := lookup t.publicKeys seed seed
  ed25519Sign seed msg :=
    lookup t.signatures (Bytes.replicate 64 0) (lookup t.publicKeys seed seed, msg)
  validKey _ := true
  verifyStrict pk msg sig := sig = lookup t.signatures (Bytes.replicate 64 0) (pk, msg)
  x25519Public secret := lookup t.encKeys secret secret

theorem correct (t : Table) : t.primitives.Correct :=
  ⟨fun _ => rfl, fun _ _ => decide_eq_true rfl⟩

end Table

/-- One box that HPKE sealed in base mode. -/
structure BoxRow where
  recipient : Bytes 32
  info : List UInt8
  plaintext : List UInt8
  aad : List UInt8
  ikm : Bytes 32
  enc : Bytes 32
  ciphertext : List UInt8
  length_eq : ciphertext.length = plaintext.length + 16
  tag_ne : ciphertext.drop plaintext.length ≠ List.replicate 16 0

namespace BoxRow

/-- HPKE with one box as it is, and every other sealed as its plaintext and a zero tag. -/
def hpke (row : BoxRow) (P : Primitives) : Hpke where
  validPublic _ := true
  validEncapped _ := true
  singleShotSeal mode recipient info plaintext aad ikm :=
    if mode = none ∧ recipient = row.recipient ∧ info = row.info ∧ plaintext = row.plaintext ∧
        aad = row.aad ∧ ikm = row.ikm then some (row.enc, row.ciphertext)
    else some (ikm, plaintext ++ List.replicate 16 0)
  singleShotOpen mode secret enc info ciphertext aad :=
    if mode = none ∧ P.x25519Public secret = row.recipient ∧ enc = row.enc ∧ info = row.info ∧
        ciphertext = row.ciphertext ∧ aad = row.aad then some row.plaintext
    else some (ciphertext.take (ciphertext.length - 16))

theorem correct (row : BoxRow) (P : Primitives) : (row.hpke P).Correct P := by
  refine ⟨fun _ => rfl, fun sender secret info plaintext aad ikm => ?_⟩
  by_cases h : (sender.map fun s => (s, P.x25519Public s)) = none ∧
      P.x25519Public secret = row.recipient ∧ info = row.info ∧ plaintext = row.plaintext ∧
      aad = row.aad ∧ ikm = row.ikm
  · refine ⟨row.enc, row.ciphertext, if_pos h, rfl, ?_, ?_⟩
    · rw [h.2.2.2.1]
      exact row.length_eq
    · have hmode : sender.map P.x25519Public = none := by
        rw [Option.map_eq_none_iff] at h ⊢
        exact h.1
      rw [h.2.2.2.1]
      exact if_pos ⟨hmode, h.2.1, rfl, h.2.2.1, rfl, h.2.2.2.2.1⟩
  · refine ⟨ikm, plaintext ++ List.replicate 16 0, if_neg h, rfl, by simp, ?_⟩
    have hother : plaintext ++ List.replicate 16 0 ≠ row.ciphertext := by
      intro he
      have hlen := row.length_eq
      rw [← he, List.length_append, List.length_replicate] at hlen
      refine row.tag_ne ?_
      rw [← he, show row.plaintext.length = plaintext.length by omega, List.drop_left]
    have hopen : (row.hpke P).singleShotOpen (sender.map P.x25519Public) secret ikm info
        (plaintext ++ List.replicate 16 0) aad =
        some ((plaintext ++ List.replicate 16 0).take
          ((plaintext ++ List.replicate 16 0).length - 16)) :=
      if_neg fun hrow => hother hrow.2.2.2.2.1
    rw [hopen, List.length_append, List.length_replicate, Nat.add_sub_cancel, List.take_left]

end BoxRow

/-- `n` as an array of `k` bytes. -/
def beArray (k n : Nat) : Bytes k := ⟨beBytes k n, length_beBytes k n⟩

namespace Vectors

/-! ## Keys -/

def identityKey : PublicKey :=
  beArray 32 0x8a88e3dd7409f195fd52db2d3cba5d72ca6709bf1d94121bf3748801b40f6f5c

def identityFingerprint : Fingerprint :=
  beArray 32 0x34750f98bd59fcfc946da45aaabe933be154a4b5094e1c4abf42866505f3c97e

def deviceSeed : Bytes 32 := Bytes.replicate 32 2

def device : DeviceKey := ⟨deviceSeed⟩

def deviceKey : PublicKey :=
  beArray 32 0x8139770ea87d175f56a35466c34c7ecccb8d8a91b4ee37a25df60f5b8fc9b394

def deviceEnc : Bytes 32 :=
  beArray 32 0x198102e1c39f8bcabb16b9ed3135b4abb72e470139ec8364d882e300ed105c04

/-- The fingerprint of the other identity, which the private messages are to. -/
def otherFingerprint : Fingerprint :=
  beArray 32 0xfe812c12f3ab4ce6ac5db69ac352f906cb1b11ef43fb33e252ef7ff552263889

/-! ## A certificate and a private message -/

def messageCert : DeviceCert where
  identity := identityKey
  device := deviceKey
  deviceEnc := deviceEnc
  issued := 1757116800
  expires := 1764892800
  caps := some 3
  name := none

def messageCertSig : Signature :=
  beArray 64 0xd798deb97eb8aeda7f8f6258c43a160d6800b17269488eeb4d1e960f948d6e6b_cf16037f878c012a6669e800de85f1699f9c68d017cc046f44ed2a7168012004

def messageCertBytes : List UInt8 :=
  encode (pushEntry "sig" (.bytes messageCertSig.val) messageCert.unsigned)

def privateMessage : PrivateMessage where
  id := Bytes.replicate 16 0x20
  sent := 1757117000
  toFp := otherFingerprint
  cert := messageCertBytes
  text := "A private word."
  quote := none
  auto := false

def privateMessageSig : Signature :=
  beArray 64 0xa948ec08acfd4b41aafd451906f5739955fc94f4f6164cde52ebf9b2429485e0_2c52ab44dde6bd8da8de2535c4306295b014c03b4a5cc9e6767e4b2764b1ed02

/-- When the reader's server received it. -/
def received : UInt64 := 1757117030

def privateMessageBytes : List UInt8 :=
  encode (pushEntry "sig" (.bytes privateMessageSig.val) privateMessage.unsigned)

/-! ## The private message sealed -/

def deviceSecret : Bytes 32 :=
  beArray 32 0x5e74c02dddb4054e82b3dac6bf51caa41b5abb62ddff31bc71246cf8010a1c34

/-- The recipient's device. -/
def otherDevice : DeviceKey := ⟨Bytes.replicate 32 8⟩

def otherSecret : Bytes 32 :=
  beArray 32 0x1a4233f13c95d20633ceb939abede28369f7aef515bf2c3122fa578e94cdd750

def otherEnc : Bytes 32 :=
  beArray 32 0x2c21faabaf9611afdd55492259bc61a01013ecfd3c35ec07953d0d60a01a4470

def sealedEnc : Bytes 32 :=
  beArray 32 0xf5a3baf1f88dc02425911e1ee85e67025ca1e2bb6ad617fa0190925146d45d4b

def sealedCiphertext : List UInt8 :=
  beBytes 48 0x163f50f3b67bb80bb55301418628fd7e7f350d5b52830d8a8d44f0164870f4377036a6735159448d5345d9d4512a58e1 ++
  beBytes 48 0xbf307914586cd873ddbdfef238281c8a86c46344ee70a3c49a3e8abd398a5b23192c54f2919ba2c49d73b4798960d408 ++
  beBytes 48 0xc8fa23864882850719c2173ab0f7f14ba8a1218840ea782c93b160ddb3c6f353a1f092a3679fe9659c6a17a107dd3d5d ++
  beBytes 48 0x97acee12d254747eab438a7fd0688fd36a3f402021bf7a752179d241dc14afd5ba10f3b1a09381259b0b0312e6909679 ++
  beBytes 48 0xcad65d591c51d506f1c933fbe41e7680e11aacc37407ca06d8d6e9dadbaaf997403eb67059a6126ae357ff03110c00cb ++
  beBytes 48 0x9532b23a19a631883fbf0dd5a9f310eb9888eacb001fbcc193302d638d55f8039093418702afec67cc9b0ea25939a074 ++
  beBytes 48 0xd8ee1f6818075aa9d80904ed8b8a5ff72387bd68011835d252097718886530146594cd66e0a6197b2d2a1380695644aa ++
  beBytes 48 0x30de50c3a4400dbb783f8afd43b4c0de0922dfc96c655bc49a5b0b294bf9a4f5653de2c8633b8e802fd6e68ad055e495 ++
  beBytes 48 0xd5c3066a8c9d9952e12636e8113d8a269b420acc0926486f344ee50dde267ec3d8df755854d0cc52ff77bdb1d9d63b2a ++
  beBytes 48 0x94ecea75890a7a1a8414eca668686ac4c31ffdf30b7dcb68a9800b2381fa6f5e8f1f196a2d24d80059016956b9bbc6a8 ++
  beBytes 48 0xf52096a36eda6223111066a7d422c3947042b50a806326458cc6ec2b85135b45a917014274bbd8423ecf6b412de5b642

def sealedBox : List UInt8 := Sealed.signedBox :: (sealedEnc.val ++ sealedCiphertext)

/-- What the recipient knows when it opens the box. -/
def opening : Sealed.Opening where
  now := received
  received := received
  reader := otherFingerprint
  sender := .named identityFingerprint

end Vectors

/-- The values printed. -/
def vectors : Table where
  publicKeys := [(Vectors.deviceSeed, Vectors.deviceKey)]
  signatures :=
    [((Vectors.identityKey, domainMessage DeviceCert.domain (encode Vectors.messageCert.unsigned)),
        Vectors.messageCertSig),
      ((Vectors.deviceKey,
          domainMessage PrivateMessage.object.domain (encode Vectors.privateMessage.unsigned)),
        Vectors.privateMessageSig)]
  hashes :=
    [(Vectors.identityKey.val, Vectors.identityFingerprint),
      (utf8 "hl-identity/device-enc/v1" ++ Vectors.deviceSeed.val, Vectors.deviceSecret),
      (utf8 "hl-identity/device-enc/v1" ++ Vectors.otherDevice.seed.val, Vectors.otherSecret)]
  encKeys :=
    [(Vectors.deviceSecret, Vectors.deviceEnc), (Vectors.otherSecret, Vectors.otherEnc)]

/-- The box printed. -/
def boxRow : BoxRow where
  recipient := Vectors.otherEnc
  info := Sealed.signedInfo
  plaintext := Vectors.privateMessageBytes ++ List.replicate 109 0
  aad := [Sealed.signedBox]
  ikm := Bytes.replicate 32 0xe1
  enc := Vectors.sealedEnc
  ciphertext := Vectors.sealedCiphertext
  length_eq := by decide +kernel
  tag_ne := by decide +kernel

end HxdNg.Identity

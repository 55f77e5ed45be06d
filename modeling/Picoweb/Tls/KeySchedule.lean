import Picoweb.Crypto.ChaChaPoly
import Picoweb.Crypto.Sha256
import Picoweb.Lib.ByteText
import Picoweb.Tls.Record

/-!
# The TLS 1.3 key schedule

`keysched.c` and the secrets of `handshake.c`. Each function refuses what does not fit into its label; the
labels, hashes and lengths the server uses always fit.
-/

namespace Tls

open ByteFile ByteText Sha256

abbrev hashLen : ℕ := digestLen

def zero32 : Bytes := List.replicate 32 0

/-- `tls13_hkdf_expand_label` -/
def hkdfExpandLabel (secret : Bytes) (label : String) (context : Bytes) (outLen : ℕ) : Option Bytes :=
  if 255 < (ascii label).length + 6 ∨ 255 < context.length ∨ 0xffff < outLen then none
  else
    hkdfExpand secret ([UInt8.ofNat (outLen / 256), UInt8.ofNat outLen, UInt8.ofNat (6 + (ascii label).length)] ++
        ascii "tls13 " ++ ascii label ++ [UInt8.ofNat context.length] ++ context) outLen

/-- `tls13_derive_traffic_keys`: key and IV of a traffic secret. -/
def deriveTrafficKeys (secret : Bytes) : Bytes × Bytes :=
  ((hkdfExpandLabel secret "key" [] 32).getD [], (hkdfExpandLabel secret "iv" [] 12).getD [])

def trafficDir (secret : Bytes) : Dir :=
  ⟨(deriveTrafficKeys secret).1, (deriveTrafficKeys secret).2, 0⟩

/-- `tls13_compute_finished` -/
def computeFinished (baseKey transcriptHash : Bytes) : Option Bytes :=
  (hkdfExpandLabel baseKey "finished" [] hashLen).map fun key => hmacSha256 key transcriptHash

/-- `tls13_verify_finished` -/
def verifyFinished (baseKey transcriptHash verifyData : Bytes) : Bool :=
  match computeFinished baseKey transcriptHash with
  | none => false
  | some expected => ChaChaPoly.consttimeEq expected verifyData

/-! ### Secrets -/

/-- `tls13_compute_early_secret` -/
def computeEarlySecret (psk : Bytes) : Bytes := hkdfExtract zero32 (if psk = [] then zero32 else psk)

/-- `tls13_compute_binder_key` -/
def computeBinderKey (earlySecret : Bytes) (isExternal : Bool) : Option Bytes :=
  hkdfExpandLabel earlySecret (if isExternal then "ext binder" else "res binder") (sha256 []) 32

/-- `tls13_compute_psk_binder` -/
def computePskBinder (binderKey partialChHash : Bytes) : Option Bytes := computeFinished binderKey partialChHash

/-- `tls13_compute_client_early_traffic_secret` -/
def computeClientEarlyTrafficSecret (earlySecret transcriptHash : Bytes) : Option Bytes :=
  hkdfExpandLabel earlySecret "c e traffic" transcriptHash 32

/-- The handshake secret and both handshake traffic secrets. -/
structure HandshakeSecrets where
  handshake : Bytes
  client : Bytes
  server : Bytes
  deriving DecidableEq, Repr

/-- What `tls13_compute_handshake_secrets` and `_psk` do with the early secret. -/
def handshakeSecretsFrom (earlySecret shared transcriptHash : Bytes) : Option HandshakeSecrets := do
  let derived ← hkdfExpandLabel earlySecret "derived" (sha256 []) 32
  let handshake := hkdfExtract derived shared
  let client ← hkdfExpandLabel handshake "c hs traffic" transcriptHash 32
  let server ← hkdfExpandLabel handshake "s hs traffic" transcriptHash 32
  pure ⟨handshake, client, server⟩

/-- `tls13_compute_handshake_secrets` -/
def computeHandshakeSecrets (shared transcriptHash : Bytes) : Option HandshakeSecrets :=
  handshakeSecretsFrom (hkdfExtract zero32 zero32) shared transcriptHash

/-- `tls13_compute_handshake_secrets_psk` -/
def computeHandshakeSecretsPsk (psk shared transcriptHash : Bytes) : Option HandshakeSecrets :=
  handshakeSecretsFrom (computeEarlySecret psk) shared transcriptHash

/-- The master secret and both application traffic secrets. -/
structure ApplicationSecrets where
  master : Bytes
  client : Bytes
  server : Bytes
  deriving DecidableEq, Repr

/-- `tls13_compute_application_secrets` -/
def computeApplicationSecrets (handshakeSecret transcriptHash : Bytes) : Option ApplicationSecrets := do
  let derived ← hkdfExpandLabel handshakeSecret "derived" (sha256 []) 32
  let master := hkdfExtract derived zero32
  let client ← hkdfExpandLabel master "c ap traffic" transcriptHash 32
  let server ← hkdfExpandLabel master "s ap traffic" transcriptHash 32
  pure ⟨master, client, server⟩

/-- `tls13_compute_resumption_master_secret` -/
def computeResumptionMasterSecret (masterSecret transcriptHash : Bytes) : Option Bytes :=
  hkdfExpandLabel masterSecret "res master" transcriptHash 32

/-! ### Nothing is refused -/

lemma isSome_hkdfExpandLabel {secret : Bytes} {label : String} {context : Bytes} {outLen : ℕ}
    (hlabel : (ascii label).length + 6 ≤ 255) (hcontext : context.length ≤ 255) (hout : outLen ≤ 8160) :
    (hkdfExpandLabel secret label context outLen).isSome := by
  rw [hkdfExpandLabel, if_neg (by omega), hkdfExpand, if_neg (by simp only [digestLen]; omega)]
  rfl

lemma isSome_computeClientEarlyTrafficSecret (earlySecret data : Bytes) :
    (computeClientEarlyTrafficSecret earlySecret (sha256 data)).isSome := by
  apply isSome_hkdfExpandLabel
  · decide
  · rw [length_sha256]
    decide
  · decide

lemma length_computeFinished {baseKey transcriptHash verifyData : Bytes}
    (h : computeFinished baseKey transcriptHash = some verifyData) : verifyData.length = hashLen := by
  obtain ⟨key, -, rfl⟩ := h
  exact length_final _

/-- The Finished that an endpoint expects, and accepts. -/
lemma exists_computeFinished (baseKey transcriptHash : Bytes) : ∃ verifyData,
    computeFinished baseKey transcriptHash = some verifyData ∧ verifyData.length = 32 ∧
      verifyFinished baseKey transcriptHash verifyData = true := by
  have hsome : (computeFinished baseKey transcriptHash).isSome := by
    rw [computeFinished, Option.isSome_map]
    exact isSome_hkdfExpandLabel (by decide) (by decide) (by decide)
  obtain ⟨verifyData, h⟩ := Option.isSome_iff_exists.1 hsome
  refine ⟨verifyData, h, length_computeFinished h, ?_⟩
  rw [verifyFinished, h]
  exact ChaChaPoly.consttimeEq_self _

/-- A Finished that is verified is the HMAC over the hash. -/
lemma eq_of_verifyFinished {baseKey transcriptHash verifyData : Bytes} (hlen : verifyData.length = hashLen)
    (h : verifyFinished baseKey transcriptHash verifyData = true) :
    computeFinished baseKey transcriptHash = some verifyData := by
  rw [verifyFinished] at h
  split at h
  · cases h
  · rename_i expected hexpected
    have hlen' := length_computeFinished hexpected
    rw [hexpected, ChaChaPoly.eq_of_consttimeEq (hlen'.trans hlen.symm) h]

end Tls

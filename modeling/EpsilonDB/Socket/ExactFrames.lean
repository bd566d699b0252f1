import EpsilonDB.Engine.Aead
import EpsilonDB.Socket.EstpWire

/-!
# The frames that are accepted (`socket/estp_wire.c`)

`estp_recv_frame_raw` allows for the nonce and the tag when it bounds the length of a body, with a
key and without one.

- `SentAs`: a sender would have written the bytes that a frame was read from.
- `header_eq`: a header that is accepted is the header that is written.
- `sentAs_iff`: an accepted frame is one that a sender writes, but for bodies in plaintext that
  are longer than a payload may be.
- `not_sentAs_longBody`: such a body.
-/

namespace EpsilonDB

open Chunked

/-- The bytes that the frame was read from are what a sender in the same mode writes for it, under
the nonce they carry. -/
def SentAs (key : Option MeshKey) (cs : List Bytes) (r : Received) (cs' : List Bytes) : Prop :=
  ∃ out, estpSendFrameRaw key (nonceOf (cs.flatten.drop estpHeaderSize)) r.type r.bytes = some out ∧
    cs.flatten = out ++ cs'.flatten

/-- The length of the body that the header of a stream announces. -/
def announced (cs : List Bytes) : Nat := ntohl ((cs.flatten.drop 6).take 4)

variable {key : Option MeshKey} {cs cs' : List Bytes} {r : Received} {hdr body : Bytes}

/-- The four bytes of a length. -/
theorem htonl_ntohl {b : Bytes} (h : b.length = 4) : htonl (ntohl b) = b := by
  obtain ⟨w, x, y, z, rfl⟩ := List.length_eq_four.mp h
  have hw := w.toNat_lt
  have hx := x.toNat_lt
  have hy := y.toNat_lt
  have hz := z.toNat_lt
  have hbyte (n : Nat) (c : UInt8) (hc : n % 256 = c.toNat) : UInt8.ofNat n = c := by
    apply UInt8.toNat_inj.mp
    rw [UInt8.toNat_ofNat', ← hc]
  simp only [ntohl, htonl, List.foldl_cons, List.foldl_nil]
  rw [hbyte _ w (by omega), hbyte _ x (by omega), hbyte _ y (by omega), hbyte _ z (by omega)]

/-- The type byte is written again. -/
theorem ofInt_toNat (t : UInt8) : UInt8.ofInt (t.toNat : Int) = t := by
  have hbyte : ∀ t : UInt8, UInt8.ofInt (t.toNat : Int) = t := forall_byte (by decide +kernel)
  exact hbyte t

/-- A header that is accepted: the magic bytes, the type and the length. -/
theorem header_cases (hlen : hdr.length = estpHeaderSize) (hmagic : hdr.take 5 = estpMagic) :
    ∃ t l, hdr = estpMagic ++ t :: l ∧ l.length = 4 := by
  have hdrop : (hdr.drop 5).length = 5 := by
    rw [List.length_drop, hlen]
    rfl
  obtain ⟨t, l, hl⟩ := List.exists_cons_of_length_eq_add_one hdrop
  refine ⟨t, l, ?_, ?_⟩
  · rw [← hmagic, ← hl, List.take_append_drop]
  · rw [hl, List.length_cons] at hdrop
    omega

/-- **A header that is accepted** is the one that is written. -/
theorem header_eq {t : UInt8} {l : Bytes} (hl : l.length = 4) :
    estpMagic ++ t :: l = estpHeader t.toNat (ntohl l) := by
  rw [estpHeader, ofInt_toNat, htonl_ntohl hl, List.append_assoc, List.singleton_append]

/-- What is known of a frame that is accepted. -/
theorem estpRecvFrameRaw_cases (h : estpRecvFrameRaw key cs = some (r, cs')) :
    ∃ (t : UInt8) (l body : Bytes), l.length = 4 ∧ r.type = t.toNat ∧
      estpTypeValid r.type = true ∧ body.length = ntohl l ∧
      ntohl l ≤ estpMaxPayload + nonceLen + tagLen ∧
      cs.flatten = estpHeader r.type body.length ++ body ++ cs'.flatten ∧
      estpPayload key (estpMagic ++ t :: l) body = some r.payload := by
  obtain ⟨⟨hdr, cs₁⟩, hread₁, h⟩ := Option.bind_eq_some_iff.mp h
  dsimp only at h
  split at h
  · cases h
  · next hvalid =>
    rw [not_or, not_not, Bool.not_eq_false] at hvalid
    split at h
    · cases h
    · next hbound =>
      obtain ⟨⟨body, cs₂⟩, hread₂, h⟩ := Option.bind_eq_some_iff.mp h
      obtain ⟨payload, hpayload, h⟩ := Option.bind_eq_some_iff.mp h
      cases h
      obtain ⟨t, l, rfl, hl⟩ := header_cases (length_of_readFull hread₁) hvalid.1
      have hlen : body.length = ntohl l := length_of_readFull hread₂
      refine ⟨t, l, body, hl, rfl, hvalid.2, hlen, not_lt.mp hbound, ?_, hpayload⟩
      show _ = estpHeader t.toNat body.length ++ body ++ cs₂.flatten
      rw [hlen, ← header_eq hl, List.append_assoc, flatten_of_readFull hread₂,
        flatten_of_readFull hread₁]

/-- The announced length is that of the body. -/
theorem announced_eq {type : Int} {rest : Bytes} (hbound : body.length < 2 ^ 32)
    (h : cs.flatten = estpHeader type body.length ++ body ++ rest) :
    announced cs = body.length := by
  have hlength : (cs.flatten.drop 6).take 4 = htonl body.length := by
    rw [h]
    rfl
  rw [announced, hlength, ntohl_htonl hbound]

/-- A frame in plaintext. -/
theorem sentAs_plain (h : estpRecvFrameRaw none cs = some (r, cs')) :
    SentAs none cs r cs' ↔ announced cs ≤ estpMaxPayload := by
  obtain ⟨t, l, body, hl, -, hvalid, hlen, hbound, hflat, hpayload⟩ := estpRecvFrameRaw_cases h
  have hbytes : r.bytes = body := by
    rw [Received.bytes, ← Option.some.inj hpayload]
    split
    · next hnil => exact hnil.symm
    · rfl
  have hsmall : body.length < 2 ^ 32 := by
    rw [hlen]
    exact lt_of_le_of_lt hbound (by decide)
  rw [announced_eq hsmall hflat, SentAs, hbytes]
  unfold estpSendFrameRaw
  constructor
  · rintro ⟨out, hsend, -⟩
    split at hsend
    · cases hsend
    · next hok => exact not_lt.mp (not_or.mp hok).2
  · intro hfits
    refine ⟨estpHeader r.type body.length ++ body, ?_, hflat⟩
    rw [if_neg (not_or.mpr ⟨by rw [hvalid]; decide, not_lt.mpr hfits⟩)]
    rfl

/-- A frame under a key. -/
theorem sentAs_sealed {k : MeshKey} (h : estpRecvFrameRaw (some k) cs = some (r, cs')) :
    SentAs (some k) cs r cs' := by
  obtain ⟨t, l, body, hl, htype, hvalid, hlen, hbound, hflat, hpayload⟩ :=
    estpRecvFrameRaw_cases h
  unfold estpPayload at hpayload
  dsimp only at hpayload
  split at hpayload
  · cases hpayload
  · next hlong =>
    obtain ⟨plain, hopen, hplain⟩ := Option.map_eq_some_iff.mp hpayload
    have haad : ((estpMagic ++ t :: l).drop 4).take 2 = [estpVersion, UInt8.ofInt r.type] := by
      rw [htype, ofInt_toNat]
      rfl
    have hbytes : r.bytes = plain := by
      rw [Received.bytes, ← hplain]
      rfl
    have htotal := (edbAeadOpen_cases hopen).1
    have hnonce : nonceOf (cs.flatten.drop estpHeaderSize) = nonceOf body := by
      have hdrop : cs.flatten.drop estpHeaderSize = body ++ cs'.flatten := by
        rw [hflat, List.append_assoc]
        exact List.drop_left' (length_estpHeader _ _)
      rw [hdrop]
      apply Vector.ext
      intro i hi
      have hlt : i < body.length := by
        have hnonceLen : nonceLen = 12 := rfl
        omega
      unfold nonceOf
      rw [Vector.getElem_ofFn, Vector.getElem_ofFn, List.getD_eq_getElem?_getD,
        List.getD_eq_getElem?_getD, List.getElem?_append_left hlt]
    rw [haad] at hopen
    have hseal := edbAeadSeal_of_open hopen le_rfl
    refine ⟨estpHeader r.type body.length ++ body, ?_, hflat⟩
    have hfits : ¬ (estpTypeValid r.type = false ∨ estpMaxPayload < plain.length) := by
      rw [hvalid, not_or, not_lt]
      exact ⟨by decide, by omega⟩
    rw [estpSendFrameRaw, hbytes, hnonce, if_neg hfits, estpBody, hseal]
    rfl

/-- **The receiver accepts what a sender writes**, in either mode, but for a body in plaintext
that is longer than a payload may be. -/
theorem sentAs_iff (h : estpRecvFrameRaw key cs = some (r, cs')) :
    SentAs key cs r cs' ↔ key.isSome = true ∨ announced cs ≤ estpMaxPayload := by
  cases key with
  | none =>
    rw [sentAs_plain h]
    exact (or_iff_right (by decide)).symm
  | some k => exact iff_of_true (sentAs_sealed h) (Or.inl rfl)

/-- A body in plaintext is read when it fits the bound for both modes. -/
theorem recv_plain (hbody : body.length ≤ estpMaxPayload + nonceLen + tagLen) :
    ∃ cs', estpRecvFrameRaw none [estpHeader 8 body.length ++ body] =
      some (⟨8, if body = [] then none else some body, body.length⟩, cs') := by
  have hflat : [estpHeader 8 body.length ++ body].flatten = estpHeader 8 body.length ++ body :=
    List.flatten_singleton
  obtain ⟨cs₁, hread₁, hflat₁⟩ := readFull_append hflat
  obtain ⟨cs₂, hread₂, -⟩ := readFull_append (hflat₁.trans (List.append_nil body).symm)
  have hbodyLen : ntohl ((estpHeader 8 body.length).drop 6) = body.length :=
    ntohl_htonl (lt_of_le_of_lt hbody (by decide))
  have hmagic : ¬ ((estpHeader 8 body.length).take 5 ≠ estpMagic ∨
      estpTypeValid ((estpHeader 8 body.length).getD 5 0).toNat = false) := by
    rintro (h | h)
    · exact h rfl
    · cases h
  refine ⟨cs₂, ?_⟩
  rw [length_estpHeader] at hread₁
  unfold estpRecvFrameRaw
  rw [hread₁]
  simp only [Option.bind_eq_bind, Option.bind_some]
  rw [if_neg hmagic, hbodyLen, if_neg (not_lt.mpr hbody), hread₂]
  rfl

/-- An empty frame is accepted, and it is one that is sent. -/
theorem sentAs_empty : ∃ r cs', estpRecvFrameRaw none [estpHeader 8 0] = some (r, cs') ∧
    (SentAs none [estpHeader 8 0] r cs' ↔
      (none : Option MeshKey).isSome = true ∨ announced [estpHeader 8 0] ≤ estpMaxPayload) := by
  obtain ⟨cs', hrecv⟩ := @recv_plain [] (by decide)
  exact ⟨_, cs', hrecv, sentAs_iff hrecv⟩

/-- A body with one byte more than a payload may have. -/
def longBody : Bytes := List.replicate (estpMaxPayload + 1) 0

/-- **It is delivered**, though no sender writes it. -/
theorem not_sentAs_longBody :
    ∃ r cs', estpRecvFrameRaw none [estpHeader 8 longBody.length ++ longBody] = some (r, cs') ∧
      r.bytes.length = estpMaxPayload + 1 ∧
      ¬ SentAs none [estpHeader 8 longBody.length ++ longBody] r cs' := by
  have hlen : longBody.length = estpMaxPayload + 1 := List.length_replicate
  have hlong : longBody.length ≤ estpMaxPayload + nonceLen + tagLen := by
    rw [hlen]
    decide
  obtain ⟨cs', hrecv⟩ := recv_plain hlong
  have hflat : [estpHeader 8 longBody.length ++ longBody].flatten =
      estpHeader 8 longBody.length ++ longBody ++ [] := by simp
  refine ⟨_, cs', hrecv, (estpRecvFrameRaw_whole hrecv).trans hlen, ?_⟩
  rw [sentAs_plain hrecv, announced_eq (lt_of_le_of_lt hlong (by decide)) hflat, hlen]
  exact Nat.not_succ_le_self _

end EpsilonDB

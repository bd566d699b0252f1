import EpsilonDB.Engine.Crypto
import EpsilonDB.Lib.Chunked

/-!
# The frame codec (`socket/estp_wire.c`)

A frame is ten bytes of header (magic, version, type, big-endian body length) and a
body: the payload itself, or the sealed payload when the process has a mesh key. The
receiver reads the header and then the body from a socket that may cut the bytes
anywhere. Memory is taken to be available and no call to time out.

- `EstpType`, `EstpFrame`: a message type, and a frame that a sender may send.
- `estpSendFrameRaw`: the bytes written for one frame, under a nonce drawn for it.
- `estpRecvFrameRaw`: one frame from the chunks still to arrive.
- `frame_round_trip`: every sequence of frames is read back exactly.
-/

namespace EpsilonDB

open Chunked

/-! ## Frames -/

/-- `estp_type`. -/
inductive EstpType where
  | hello | state | repl | ack | query | result | snapReq | snapData | snapAck | flush | void
deriving DecidableEq

def EstpType.code : EstpType → Int
  | .hello => 1
  | .state => 2
  | .repl => 3
  | .ack => 4
  | .query => 5
  | .result => 6
  | .snapReq => 7
  | .snapData => 8
  | .snapAck => 9
  | .flush => 10
  | .void => 11

/-- `estp_type_valid`. -/
def estpTypeValid (type : Int) : Bool :=
  decide (EstpType.hello.code ≤ type ∧ type ≤ EstpType.void.code)

/-- `ESTP_VERSION`. -/
def estpVersion : UInt8 := 1

/-- `ESTP_HEADER_SIZE`. -/
def estpHeaderSize : Nat := 10

/-- `ESTP_MAX_PAYLOAD`. -/
def estpMaxPayload : Nat := 4 * 1024 * 1024

/-- A frame of a known type that is not too long. -/
structure EstpFrame where
  type : EstpType
  payload : Bytes
  fits : payload.length ≤ estpMaxPayload

/-- The key of the mesh; without one the frames are sent in plaintext. -/
structure MeshKey where
  enc : Vector UInt8 32
  mac : Vector UInt8 32

/-- What `estp_recv_frame_raw` returns and fills in: the payload pointer is NULL for an
empty frame sent in plaintext. -/
structure Received where
  type : Int
  payload : Option Bytes
  plen : Nat
deriving DecidableEq

def Received.bytes (r : Received) : Bytes := r.payload.getD []

/-! ## The codec -/

/-- `htonl`, as the four bytes that are copied into the header. -/
def htonl (n : Nat) : Bytes :=
  [UInt8.ofNat (n / 2 ^ 24), UInt8.ofNat (n / 2 ^ 16), UInt8.ofNat (n / 2 ^ 8), UInt8.ofNat n]

/-- `ntohl` of four bytes of the header. -/
def ntohl (b : Bytes) : Nat := b.foldl (fun n x => n * 256 + x.toNat) 0

/-- The first bytes of every frame: `'Z' 'S' 'T' 'P'` and the version. -/
def estpMagic : Bytes := cstr "ZSTP" ++ [estpVersion]

/-- The header of a frame with a body of `bodyLen` bytes. -/
def estpHeader (type : Int) (bodyLen : Nat) : Bytes :=
  estpMagic ++ [UInt8.ofInt type] ++ htonl bodyLen

/-- The body: the payload, or the sealed payload. Version and type are authenticated. -/
def estpBody (key : Option MeshKey) (nonce : Vector UInt8 12) (type : Int) (data : Bytes) :
    Option Bytes :=
  match key with
  | none => some data
  | some k =>
    edbAeadSeal k.enc k.mac nonce [estpVersion, UInt8.ofInt type] data
      (nonceLen + data.length + tagLen)

/-- The bytes `estp_send_frame_raw` writes, or nothing when it returns -1. -/
def estpSendFrameRaw (key : Option MeshKey) (nonce : Vector UInt8 12) (type : Int)
    (data : Bytes) : Option Bytes :=
  if estpTypeValid type = false ∨ estpMaxPayload < data.length then none
  else do
    let body ← estpBody key nonce type data
    return estpHeader type body.length ++ body

/-- The payload of a body, or nothing when it does not authenticate. -/
def estpPayload (key : Option MeshKey) (hdr body : Bytes) : Option (Option Bytes) :=
  match key with
  | none => some (if body = [] then none else some body)
  | some k =>
    if body.length < nonceLen + tagLen then none
    else
      (edbAeadOpen k.enc k.mac ((hdr.drop 4).take 2) body
        (body.length - nonceLen - tagLen)).map some

/-- One frame and what is still to arrive after it, or nothing when
`estp_recv_frame_raw` returns -1. -/
def estpRecvFrameRaw (key : Option MeshKey) (cs : List Bytes) :
    Option (Received × List Bytes) := do
  let (hdr, cs) ← readFull estpHeaderSize cs
  if hdr.take 5 ≠ estpMagic ∨ estpTypeValid (hdr.getD 5 0).toNat = false then none
  else
    let bodyLen := ntohl (hdr.drop 6)
    if estpMaxPayload + nonceLen + tagLen < bodyLen then none
    else
      let (body, cs) ← readFull bodyLen cs
      let payload ← estpPayload key hdr body
      let plen := if key.isSome then bodyLen - nonceLen - tagLen else bodyLen
      return (⟨(hdr.getD 5 0).toNat, payload, plen⟩, cs)

/-- The frames one after the other on one connection, each under its own nonce. -/
def sendFrames (key : Option MeshKey) : List (EstpFrame × Vector UInt8 12) → Option Bytes
  | [] => some []
  | (f, nonce) :: fs => do
    let out ← estpSendFrameRaw key nonce f.type.code f.payload
    let rest ← sendFrames key fs
    return out ++ rest

/-- `n` frames received one after the other. -/
def recvFrames (key : Option MeshKey) (n : Nat) (cs : List Bytes) :
    Option (List Received × List Bytes) :=
  many (estpRecvFrameRaw key) n cs

/-! ## One frame -/

theorem estpTypeValid_code (t : EstpType) : estpTypeValid t.code = true := by
  cases t <;> decide

/-- The type byte is read back. -/
theorem toNat_ofInt_code (t : EstpType) : ((UInt8.ofInt t.code).toNat : Int) = t.code := by
  cases t <;> decide

theorem ntohl_htonl {n : Nat} (h : n < 2 ^ 32) : ntohl (htonl n) = n := by
  simp only [htonl, ntohl, List.foldl_cons, List.foldl_nil, UInt8.toNat_ofNat']
  omega

theorem length_estpHeader (type : Int) (n : Nat) :
    (estpHeader type n).length = estpHeaderSize := rfl

/-- What the receiver makes of a frame. -/
def EstpFrame.received (key : Option MeshKey) (f : EstpFrame) : Received where
  type := f.type.code
  payload := if key.isNone ∧ f.payload = [] then none else some f.payload
  plen := f.payload.length

theorem EstpFrame.bytes_received (key : Option MeshKey) (f : EstpFrame) :
    (f.received key).bytes = f.payload := by
  unfold received Received.bytes
  dsimp only
  split
  · rename_i h
    exact h.2.symm
  · rfl

/-- The body of a frame within the bounds opens to its payload. -/
theorem estpPayload_estpBody (key : Option MeshKey) (nonce : Vector UInt8 12) (f : EstpFrame) :
    ∃ body, estpBody key nonce f.type.code f.payload = some body ∧
      body.length = f.payload.length + (if key.isSome then nonceLen + tagLen else 0) ∧
      ∀ n, estpPayload key (estpHeader f.type.code n) body = some (f.received key).payload := by
  cases key with
  | none =>
    refine ⟨f.payload, rfl, rfl, fun n => ?_⟩
    simp [estpPayload, EstpFrame.received]
  | some k =>
    obtain ⟨out, hseal, hlen, hopen⟩ := edbAeadOpen_edbAeadSeal k.enc k.mac nonce
      [estpVersion, UInt8.ofInt f.type.code] f.payload
    refine ⟨out, hseal, ?_, fun n => ?_⟩
    · show out.length = f.payload.length + (nonceLen + tagLen)
      omega
    · have hplain : out.length - nonceLen - tagLen = f.payload.length := by omega
      have haad : ((estpHeader f.type.code n).drop 4).take 2 =
          [estpVersion, UInt8.ofInt f.type.code] := rfl
      rw [estpPayload, if_neg (by omega), hplain, haad, hopen]
      simp [EstpFrame.received]

/-- **One frame** is written, and read back whatever the chunks are and whatever follows. -/
theorem estpRecvFrameRaw_estpSendFrameRaw (key : Option MeshKey) (nonce : Vector UInt8 12)
    (f : EstpFrame) :
    ∃ out, estpSendFrameRaw key nonce f.type.code f.payload = some out ∧
      ∀ cs rest, cs.flatten = out ++ rest →
        ∃ cs', estpRecvFrameRaw key cs = some (f.received key, cs') ∧ cs'.flatten = rest := by
  obtain ⟨body, hbody, hlen, hpayload⟩ := estpPayload_estpBody key nonce f
  have hfits := f.fits
  have hbound : body.length ≤ estpMaxPayload + nonceLen + tagLen := by
    rw [hlen]
    split <;> omega
  have hpayload := hpayload body.length
  set hdr := estpHeader f.type.code body.length with hhdr
  have htype : ((hdr.getD 5 0).toNat : Int) = f.type.code := toNat_ofInt_code f.type
  have hbodyLen : ntohl (hdr.drop 6) = body.length :=
    ntohl_htonl (lt_of_le_of_lt hbound (by decide))
  -- what is sent is the header and the body, and they are read one after the other
  refine ⟨hdr ++ body, ?_, ?_⟩
  · rw [estpSendFrameRaw, if_neg, hbody]
    · rfl
    · rw [estpTypeValid_code]
      rintro (h | h)
      · cases h
      · omega
  · intro cs rest hcs
    rw [List.append_assoc] at hcs
    obtain ⟨cs₁, hread₁, hflat₁⟩ := readFull_append hcs
    obtain ⟨cs₂, hread₂, hflat₂⟩ := readFull_append hflat₁
    refine ⟨cs₂, ?_, hflat₂⟩
    have hmagic : ¬ (hdr.take 5 ≠ estpMagic ∨ estpTypeValid f.type.code = false) := by
      rw [estpTypeValid_code]
      rintro (h | h)
      · exact h rfl
      · cases h
    have hplen : (if key.isSome then body.length - nonceLen - tagLen else body.length) =
        f.payload.length := by
      rw [hlen]
      split <;> omega
    rw [estpRecvFrameRaw, ← length_estpHeader f.type.code body.length, ← hhdr, hread₁]
    simp only [Option.bind_eq_bind, Option.bind_some, htype, if_neg hmagic, hbodyLen,
      if_neg (not_lt.mpr hbound), hread₂, hpayload, hplen]
    rfl

/-- A received frame has as many bytes as it says. -/
theorem estpRecvFrameRaw_whole {key : Option MeshKey} {cs cs' : List Bytes} {r : Received}
    (h : estpRecvFrameRaw key cs = some (r, cs')) : r.bytes.length = r.plen := by
  obtain ⟨⟨hdr, cs₁⟩, -, h⟩ := Option.bind_eq_some_iff.mp h
  dsimp only at h
  split at h
  · cases h
  · split at h
    · cases h
    · obtain ⟨⟨body, cs₂⟩, hread, h⟩ := Option.bind_eq_some_iff.mp h
      obtain ⟨payload, hpayload, h⟩ := Option.bind_eq_some_iff.mp h
      cases h
      have hlen := length_of_readFull hread
      unfold estpPayload at hpayload
      cases key with
      | none =>
        obtain rfl := Option.some.inj hpayload
        show (Option.getD (if body = [] then none else some body) []).length = _
        split
        · next hnil =>
          rw [hnil] at hlen
          exact hlen
        · exact hlen
      | some k =>
        dsimp only at hpayload
        split at hpayload
        · cases hpayload
        · obtain ⟨plain, hopen, rfl⟩ := Option.map_eq_some_iff.mp hpayload
          show plain.length = _ - nonceLen - tagLen
          unfold edbAeadOpen at hopen
          dsimp only at hopen
          split at hopen
          · cases hopen
          · split at hopen
            · cases hopen
            · split at hopen
              · obtain rfl := Option.some.inj hopen
                rw [length_edbChacha20Xor, List.length_take, List.length_drop, hlen]
                omega
              · cases hopen

/-! ## Sequences of frames -/

/-- The bytes of one frame; a frame within the bounds has some. -/
def EstpFrame.written (key : Option MeshKey) (f : EstpFrame × Vector UInt8 12) : Bytes :=
  (estpSendFrameRaw key f.2 f.1.type.code f.1.payload).getD []

theorem sendFrames_eq (key : Option MeshKey) (fs : List (EstpFrame × Vector UInt8 12)) :
    sendFrames key fs = some (fs.flatMap (EstpFrame.written key)) := by
  induction fs with
  | nil => rfl
  | cons f fs ih =>
    obtain ⟨out, hout, -⟩ := estpRecvFrameRaw_estpSendFrameRaw key f.2 f.1
    have hwritten : EstpFrame.written key f = out := by rw [EstpFrame.written, hout, Option.getD_some]
    rw [sendFrames, hout, ih, List.flatMap_cons, hwritten]
    rfl

theorem decodes_estpRecvFrameRaw (key : Option MeshKey) :
    Decodes (EstpFrame.written key) (fun f => f.1.received key) (estpRecvFrameRaw key) := by
  intro f cs rest hcs
  obtain ⟨out, hout, hrecv⟩ := estpRecvFrameRaw_estpSendFrameRaw key f.2 f.1
  refine hrecv cs rest ?_
  rw [hcs, EstpFrame.written, hout, Option.getD_some]

/-- **The framing round trip.** The frames are all written, and however the bytes are cut
the receiver with the same key, or also without one, reads exactly those frames and
leaves nothing. -/
theorem frame_round_trip (key : Option MeshKey) (fs : List (EstpFrame × Vector UInt8 12)) :
    ∃ out, sendFrames key fs = some out ∧
      ∀ cs : List Bytes, cs.flatten = out →
        ∃ rs cs', recvFrames key fs.length cs = some (rs, cs') ∧ cs'.flatten = [] ∧
          rs.map (fun r => (r.type, r.bytes, r.plen)) =
            fs.map fun f => (f.1.type.code, f.1.payload, f.1.payload.length) := by
  refine ⟨_, sendFrames_eq key fs, fun cs hcs => ?_⟩
  obtain ⟨cs', hmany, hflat⟩ := (decodes_estpRecvFrameRaw key).many fs
    (hcs.trans (List.append_nil _).symm)
  refine ⟨_, cs', hmany, hflat, ?_⟩
  rw [List.map_map]
  refine List.map_congr_left fun f _ => ?_
  show (_, (f.1.received key).bytes, _) = _
  rw [f.1.bytes_received key]
  rfl

end EpsilonDB

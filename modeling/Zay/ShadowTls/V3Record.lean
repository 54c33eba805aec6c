import Zay.Error
import Zay.Lib.MachineInt

/-! The authenticated records of ShadowTLS v3 (`protocol/shadowtls.rs`). The keyed hash is a
function of all that it has been updated with; of its value only a prefix is used.
-/

namespace Zay.ShadowTls

open Lib

def tlsHeaderSize : Nat := 5
def tlsRecordApplicationData : UInt8 := 0x17
def tlsMaxPlaintext : Nat := 16384
def v3HmacSize : Nat := 4

/-- The HMAC under the password, cut to the size of a tag. -/
structure Mac where
  tag : List UInt8 → List UInt8
  size : ∀ input, (tag input).length = v3HmacSize

/-- `chain` is what the HMAC has been updated with. -/
structure V3RecordCodec where
  chain : List UInt8
  deriving Repr, DecidableEq

/-- A record: what the HMAC was taken of is the chain before it, with the payload. -/
structure Record where
  payload : List UInt8
  tag : List UInt8
  deriving Repr, DecidableEq

namespace Record

def frame (record : Record) : List UInt8 :=
  [tlsRecordApplicationData, 3, 3] ++ toBigEndian 2 (record.payload.length + v3HmacSize)
  ++ record.tag ++ record.payload

/-- What a record adds to the chain. -/
def link (record : Record) : List UInt8 := record.payload ++ record.tag

end Record

namespace V3RecordCodec

def record (mac : Mac) (codec : V3RecordCodec) (payload : List UInt8) : Record where
  payload
  tag := mac.tag (codec.chain ++ payload)

def advance (codec : V3RecordCodec) (record : Record) : V3RecordCodec where
  chain := codec.chain ++ record.link

def encode (mac : Mac) (codec : V3RecordCodec) (payload : List UInt8)
    : IoResult (List UInt8) × V3RecordCodec :=
  if tlsMaxPlaintext < payload.length then
    (.error ⟨.invalidInput, "ShadowTLS v3 record payload exceeds 16384 bytes"⟩, codec)
  else
    let record := codec.record mac payload
    (.ok record.frame, codec.advance record)

/-- The HMAC keeps the payload of a record whose tag is wrong. -/
def decode (mac : Mac) (codec : V3RecordCodec) (frame : List UInt8)
    : IoResult (List UInt8) × V3RecordCodec :=
  if frame.length < tlsHeaderSize + v3HmacSize ∨ frame.head? ≠ some tlsRecordApplicationData
      ∨ (frame.drop 1).take 2 ≠ [3, 3] then
    (.error ⟨.invalidData, "invalid ShadowTLS v3 application record"⟩, codec)
  else if ofBigEndian ((frame.drop 3).take 2) + tlsHeaderSize ≠ frame.length then
    (.error ⟨.invalidData, "invalid ShadowTLS v3 record length"⟩, codec)
  else
    let tag := (frame.drop tlsHeaderSize).take v3HmacSize
    let payload := frame.drop (tlsHeaderSize + v3HmacSize)
    if tag ≠ mac.tag (codec.chain ++ payload) then
      (.error ⟨.invalidData, "ShadowTLS v3 application record HMAC mismatch"⟩,
        { chain := codec.chain ++ payload })
    else (.ok payload, codec.advance { payload, tag })

end V3RecordCodec

end Zay.ShadowTls

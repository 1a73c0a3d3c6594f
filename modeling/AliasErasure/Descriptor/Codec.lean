import AliasErasure.Descriptor.Layout
import AliasErasure.Descriptor.Records
import AliasErasure.Wire.Decode
import AliasErasure.Wire.Encode

set_option autoImplicit false

/-! # The wire form of descriptors

A descriptor is written by writing its record and read by reading a record of its message type.
-/

namespace AliasErasure.Descriptor

open Wire

def FileProto.encode (f : FileProto) : List UInt8 := encodeRecord f.toRecord

def FileProto.decode (bytes : List UInt8) : Except DecodeError FileProto :=
  (Wire.decode layout .fileProto bytes).map FileProto.ofRecord

def Request.encode (r : Request) : List UInt8 := encodeRecord r.toRecord

def Request.decode (bytes : List UInt8) : Except DecodeError Request :=
  (Wire.decode layout .request bytes).map Request.ofRecord

def Response.encode (r : Response) : List UInt8 := encodeRecord r.toRecord

def Response.decode (bytes : List UInt8) : Except DecodeError Response :=
  (Wire.decode layout .response bytes).map Response.ofRecord

def EditionRange.encode (r : EditionRange) : List UInt8 := encodeRecord r.toRecord

def EditionRange.decode (bytes : List UInt8) : Except DecodeError EditionRange :=
  (Wire.decode layout .editionRange bytes).map EditionRange.ofRecord

end AliasErasure.Descriptor

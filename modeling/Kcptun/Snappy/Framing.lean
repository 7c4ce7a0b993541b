/- Kcptun/Snappy/Framing
   source: crates/std/src/comp.rs
   digest: The framed stream: identifier, chunk headers and checksums, errors, and the block codec
     it relies on. -/

import Kcptun.Lib.Io
import Kcptun.Lib.LittleEndian
import Kcptun.Lib.Splice
import Kcptun.Lib.Varint

set_option autoImplicit false
set_option relaxedAutoImplicit false

namespace Kcptun.Snappy

open Kcptun.Lib.LittleEndian
open Kcptun.Lib.Varint (putUvarint uvarint)

def MAGIC_CHUNK : Bytes := [0xff, 6, 0, 0, 0x73, 0x4e, 0x61, 0x50, 0x70, 0x59]
def MAGIC_BODY : Bytes := [0x73, 0x4e, 0x61, 0x50, 0x70, 0x59]
def CHECKSUM_SIZE : ℕ := 4
def CHUNK_HEADER_SIZE : ℕ := 4
def MAX_BLOCK_SIZE : ℕ := 65536
def MAX_ENCODED_LEN_OF_MAX_BLOCK_SIZE : ℕ := 76490
def OBUF_HEADER_LEN : ℕ := MAGIC_CHUNK.length + CHECKSUM_SIZE + CHUNK_HEADER_SIZE
def OBUF_LEN : ℕ := OBUF_HEADER_LEN + MAX_ENCODED_LEN_OF_MAX_BLOCK_SIZE
def RBUF_LEN : ℕ := MAX_ENCODED_LEN_OF_MAX_BLOCK_SIZE + CHECKSUM_SIZE
def CHUNK_TYPE_COMPRESSED_DATA : UInt8 := 0x00
def CHUNK_TYPE_UNCOMPRESSED_DATA : UInt8 := 0x01
def CHUNK_TYPE_STREAM_IDENTIFIER : UInt8 := 0xff
def CHUNK_TYPE_MAX_UNSKIPPABLE : UInt8 := 0x7f

/-- One byte of CRC-32C: eight shifts with the reflected Castagnoli polynomial. -/
def crc32cByte (crc : UInt32) (byte : UInt8) : UInt32 :=
  (List.range 8).foldl
    (fun crc _ => if crc &&& 1 = 1 then (crc >>> 1) ^^^ 0x82f63b78 else crc >>> 1)
    (crc ^^^ byte.toUInt32)

/-- `crc32c::crc32c`. -/
def crc32c (data : Bytes) : UInt32 := data.foldl crc32cByte 0xffffffff ^^^ 0xffffffff

example : crc32c [49, 50, 51, 52, 53, 54, 55, 56, 57] = 0xe3069283 := by decide +kernel

def crc (b : Bytes) : UInt32 :=
  let c := crc32c b
  (c >>> 15 ||| c <<< 17) + 0xa282ead8

inductive Error where
  | corrupt
  | tooLarge
  | unsupported
  | unsupportedLiteralLength
  deriving DecidableEq, Repr

def Error.message : Error → String
  | .corrupt => "snappy: corrupt input"
  | .tooLarge => "snappy: decoded block is too large"
  | .unsupported => "snappy: unsupported input"
  | .unsupportedLiteralLength => "snappy: unsupported literal length"

/-- An error as its kind and its text, which is what is remembered of one. -/
abbrev IoError := Kcptun.Lib.IoError Empty

/-- What a reader or writer remembers after it has failed. -/
inductive Sticky where
  | eof
  | snappy (e : Error)
  | io (e : IoError)
  deriving DecidableEq, Repr

def Sticky.toIo : Sticky → IoError
  | .eof => .new .unexpectedEof "EOF"
  | .snappy e => .new .invalidData e.message
  | .io e => e

/-- The block codec: compression into a buffer of a given length, decompression of a block into a
buffer of the announced length. Both return the bytes written. -/
structure Snap where
  compress : Bytes → ℕ → Except String Bytes
  decompress : Bytes → ℕ → Option Bytes

/-- `snap::raw::max_compress_len`. -/
def maxCompressLen (n : ℕ) : ℕ := 32 + n + n / 6

example : maxCompressLen MAX_BLOCK_SIZE = MAX_ENCODED_LEN_OF_MAX_BLOCK_SIZE := by decide

/-- What the codec promises of a block of at most 64 KiB: a buffer of `max_compress_len` bytes is
enough, a compressed block starts with the length of its contents, and decompression undoes
compression. -/
def Snap.Lawful (snap : Snap) : Prop :=
  ∀ p room, p.length ≤ MAX_BLOCK_SIZE → maxCompressLen p.length ≤ room →
    ∃ body, snap.compress p room = .ok (putUvarint p.length ++ body) ∧
      (putUvarint p.length ++ body).length ≤ maxCompressLen p.length ∧
      snap.decompress (putUvarint p.length ++ body) p.length = some p

def decodedLen (src : Bytes) : Except Error (ℕ × ℕ) :=
  let r := uvarint src
  if r.2 ≤ 0 ∨ r.1 > 0xffffffff then .error .corrupt else .ok (r.1, r.2.toNat)

/-- Header of a chunk: its type and the length of what follows, checksum included. -/
def chunkHeader (chunkType : UInt8) (chunkLen : ℕ) : Bytes :=
  [chunkType, UInt8.ofNat chunkLen, UInt8.ofNat (chunkLen / 256), UInt8.ofNat (chunkLen / 65536)]

def chunk (chunkType : UInt8) (checksum : UInt32) (body : Bytes) : Bytes :=
  chunkHeader chunkType (CHECKSUM_SIZE + body.length) ++ le32 checksum ++ body

end Kcptun.Snappy

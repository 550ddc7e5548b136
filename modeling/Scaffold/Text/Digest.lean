import Scaffold.Text.Basic

namespace Scaffold.Digest

def secret : ByteArray := ⟨#[
  0xb8, 0xfe, 0x6c, 0x39, 0x23, 0xa4, 0x4b, 0xbe, 0x7c, 0x01, 0x81, 0x2c, 0xf7, 0x21, 0xad, 0x1c,
  0xde, 0xd4, 0x6d, 0xe9, 0x83, 0x90, 0x97, 0xdb, 0x72, 0x40, 0xa4, 0xa4, 0xb7, 0xb3, 0x67, 0x1f,
  0xcb, 0x79, 0xe6, 0x4e, 0xcc, 0xc0, 0xe5, 0x78, 0x82, 0x5a, 0xd0, 0x7d, 0xcc, 0xff, 0x72, 0x21,
  0xb8, 0x08, 0x46, 0x74, 0xf7, 0x43, 0x24, 0x8e, 0xe0, 0x35, 0x90, 0xe6, 0x81, 0x3a, 0x26, 0x4c,
  0x3c, 0x28, 0x52, 0xbb, 0x91, 0xc3, 0x00, 0xcb, 0x88, 0xd0, 0x65, 0x8b, 0x1b, 0x53, 0x2e, 0xa3,
  0x71, 0x64, 0x48, 0x97, 0xa2, 0x0d, 0xf9, 0x4e, 0x38, 0x19, 0xef, 0x46, 0xa9, 0xde, 0xac, 0xd8,
  0xa8, 0xfa, 0x76, 0x3f, 0xe3, 0x9c, 0x34, 0x3f, 0xf9, 0xdc, 0xbb, 0xc7, 0xc7, 0x0b, 0x4f, 0x1d,
  0x8a, 0x51, 0xe0, 0x4b, 0xcd, 0xb4, 0x59, 0x31, 0xc8, 0x9f, 0x7e, 0xc9, 0xd9, 0x78, 0x73, 0x64,
  0xea, 0xc5, 0xac, 0x83, 0x34, 0xd3, 0xeb, 0xc3, 0xc5, 0x81, 0xa0, 0xff, 0xfa, 0x13, 0x63, 0xeb,
  0x17, 0x0d, 0xdd, 0x51, 0xb7, 0xf0, 0xda, 0x49, 0xd3, 0x16, 0x55, 0x26, 0x29, 0xd4, 0x68, 0x9e,
  0x2b, 0x16, 0xbe, 0x58, 0x7d, 0x47, 0xa1, 0xfc, 0x8f, 0xf8, 0xb8, 0xd1, 0x7a, 0xd0, 0x31, 0xce,
  0x45, 0xcb, 0x3a, 0x8f, 0x95, 0x16, 0x04, 0x28, 0xaf, 0xd7, 0xfb, 0xca, 0xbb, 0x4b, 0x40, 0x7e]⟩

def prime32₁ : UInt64 := 0x9E3779B1
def prime32₂ : UInt64 := 0x85EBCA77
def prime32₃ : UInt64 := 0xC2B2AE3D
def prime64₁ : UInt64 := 0x9E3779B185EBCA87
def prime64₂ : UInt64 := 0xC2B2AE3D27D4EB4F
def prime64₃ : UInt64 := 0x165667B19E3779F9
def prime64₄ : UInt64 := 0x85EBCA77C2B2AE63
def prime64₅ : UInt64 := 0x27D4EB2F165667C5
def primeMx₁ : UInt64 := 0x165667919E3779F9
def primeMx₂ : UInt64 := 0x9FB21C651E98DF25

def byte (b : ByteArray) (i : Nat) : UInt64 := if h : i < b.size then b[i].toUInt64 else 0

def word32 (b : ByteArray) (i : Nat) : UInt64 :=
  byte b i ||| byte b (i + 1) <<< 8 ||| byte b (i + 2) <<< 16 ||| byte b (i + 3) <<< 24

def word64 (b : ByteArray) (i : Nat) : UInt64 := word32 b i ||| word32 b (i + 4) <<< 32

def mulFold (x y : UInt64) : UInt64 :=
  let p := x.toNat * y.toNat
  p.toUInt64 ^^^ (p / UInt64.size).toUInt64

def rotate (x : UInt64) (n : UInt64) : UInt64 := x <<< n ||| x >>> (64 - n)

def swapBytes (x : UInt64) : UInt64 :=
  (List.range 8).foldl
    (fun acc i => acc ||| ((x >>> (8 * i).toUInt64) &&& 0xff) <<< (56 - 8 * i).toUInt64) 0

def avalanche (h : UInt64) : UInt64 :=
  let h := (h ^^^ (h >>> 37)) * primeMx₁
  h ^^^ (h >>> 32)

def avalancheShort (h : UInt64) : UInt64 :=
  let h := (h ^^^ (h >>> 33)) * prime64₂
  let h := (h ^^^ (h >>> 29)) * prime64₃
  h ^^^ (h >>> 32)

def mix16 (b : ByteArray) (i s : Nat) : UInt64 :=
  mulFold (word64 b i ^^^ word64 secret s) (word64 b (i + 8) ^^^ word64 secret (s + 8))

def upTo3 (b : ByteArray) : UInt64 :=
  let n := b.size
  let c := byte b 0 <<< 16 ||| byte b (n / 2) <<< 24 ||| byte b (n - 1) ||| n.toUInt64 <<< 8
  avalancheShort (c ^^^ (word32 secret 0 ^^^ word32 secret 4))

def upTo8 (b : ByteArray) : UInt64 :=
  let n := b.size
  let x := word32 b (n - 4) + word32 b 0 <<< 32
  let h := x ^^^ (word64 secret 8 ^^^ word64 secret 16)
  let h := (h ^^^ rotate h 49 ^^^ rotate h 24) * primeMx₂
  let h := (h ^^^ ((h >>> 35) + n.toUInt64)) * primeMx₂
  h ^^^ (h >>> 28)

def upTo16 (b : ByteArray) : UInt64 :=
  let n := b.size
  let lo := word64 b 0 ^^^ (word64 secret 24 ^^^ word64 secret 32)
  let hi := word64 b (n - 8) ^^^ (word64 secret 40 ^^^ word64 secret 48)
  avalanche (n.toUInt64 + swapBytes lo + hi + mulFold lo hi)

def upTo128 (b : ByteArray) : UInt64 :=
  let n := b.size
  let pairs := (n - 1) / 32 + 1
  let acc := (List.range pairs).foldl
    (fun acc i => acc + mix16 b (16 * i) (32 * i) + mix16 b (n - 16 * (i + 1)) (32 * i + 16))
    (n.toUInt64 * prime64₁)
  avalanche acc

def upTo240 (b : ByteArray) : UInt64 :=
  let n := b.size
  let first := (List.range 8).foldl (fun acc i => acc + mix16 b (16 * i) (16 * i))
    (n.toUInt64 * prime64₁)
  let rest := (List.range (n / 16 - 8)).foldl
    (fun acc i => acc + mix16 b (16 * (i + 8)) (16 * i + 3)) (avalanche first)
  avalanche (rest + mix16 b (n - 16) (136 - 17))

abbrev Lanes := List UInt64

def accumulate (b : ByteArray) (i s : Nat) (lanes : Lanes) : Lanes :=
  (List.range 8).map fun k =>
    let data := word64 b (i + 8 * k)
    let keyed := data ^^^ word64 secret (s + 8 * k)
    let low : UInt64 := keyed &&& 0xffffffff
    lanes.getD k 0 + word64 b (i + 8 * (k ^^^ 1)) + low * (keyed >>> 32)

def scramble (lanes : Lanes) : Lanes :=
  lanes.zipIdx.map fun (a, k) =>
    (a ^^^ (a >>> 47) ^^^ word64 secret (192 - 64 + 8 * k)) * prime32₁

def mergeLanes (lanes : Lanes) (s : Nat) (start : UInt64) : UInt64 :=
  avalanche <| (List.range 4).foldl
    (fun acc k => acc + mulFold (lanes.getD (2 * k) 0 ^^^ word64 secret (s + 16 * k))
      (lanes.getD (2 * k + 1) 0 ^^^ word64 secret (s + 16 * k + 8))) start

/-- Blocks of 1024 bytes are 16 stripes of 64 bytes, each followed by a scramble; the last stripe
is always the last 64 bytes. -/
def long (b : ByteArray) : UInt64 :=
  let n := b.size
  let stripes := (n - 1) / 64
  let lanes := (List.range stripes).foldl
    (fun lanes i =>
      let lanes := accumulate b (64 * i) (8 * (i % 16)) lanes
      if i % 16 = 15 then scramble lanes else lanes)
    [prime32₃, prime64₁, prime64₂, prime64₃, prime64₄, prime32₂, prime64₅, prime32₁]
  let lanes := accumulate b (n - 64) (192 - 64 - 7) lanes
  mergeLanes lanes 11 (n.toUInt64 * prime64₁)

def ofBytes (b : ByteArray) : UInt64 :=
  let n := b.size
  if n = 0 then avalancheShort (word64 secret 56 ^^^ word64 secret 64)
  else if n ≤ 3 then upTo3 b
  else if n ≤ 8 then upTo8 b
  else if n ≤ 16 then upTo16 b
  else if n ≤ 128 then upTo128 b
  else if n ≤ 240 then upTo240 b
  else long b

end Scaffold.Digest

namespace Scaffold.Text

/-- XXH3 with 64 bits, seed zero and the standard secret, over the UTF-8 form. -/
def digest (t : Text) : UInt64 := Digest.ofBytes (String.ofList t).toUTF8

end Scaffold.Text

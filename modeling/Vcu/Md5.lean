import Mathlib.Data.List.Basic
import Vcu.Common

namespace Vcu

namespace Md5

structure State where
  a : UInt32
  b : UInt32
  c : UInt32
  d : UInt32

-- `buffer` has sixty-four bytes. Each is written before it is read.
structure MD5_CTX where
  count0 : UInt32
  count1 : UInt32
  state : State
  buffer : List UInt8

def PADDING : List UInt8 := 0x80 :: List.replicate 63 0

def F (x y z : UInt32) : UInt32 := (x &&& y) ||| (~~~x &&& z)
def G (x y z : UInt32) : UInt32 := (x &&& z) ||| (y &&& ~~~z)
def H (x y z : UInt32) : UInt32 := x ^^^ y ^^^ z
def I (x y z : UInt32) : UInt32 := y ^^^ (x ||| ~~~z)

def rotateLeft (x n : UInt32) : UInt32 := (x <<< n) ||| (x >>> (32 - n))

def FF (a b c d x s ac : UInt32) : UInt32 := rotateLeft (a + (F b c d + x + ac)) s + b
def GG (a b c d x s ac : UInt32) : UInt32 := rotateLeft (a + (G b c d + x + ac)) s + b
def HH (a b c d x s ac : UInt32) : UInt32 := rotateLeft (a + (H b c d + x + ac)) s + b
def II (a b c d x s ac : UInt32) : UInt32 := rotateLeft (a + (I b c d + x + ac)) s + b

def md5Encode (input : List UInt32) : List UInt8 :=
  input.flatMap fun (w : UInt32) => [w.toUInt8, (w >>> 8).toUInt8, (w >>> 16).toUInt8, (w >>> 24).toUInt8]

def md5Decode : List UInt8 → List UInt32
  | b0 :: b1 :: b2 :: b3 :: rest =>
      (b0.toUInt32 ||| b1.toUInt32 <<< 8 ||| b2.toUInt32 <<< 16 ||| b3.toUInt32 <<< 24) ::
        md5Decode rest
  | _ => []

def md5Transform (state : State) (block : List UInt8) : State :=
  let words := md5Decode block
  let x (i : Nat) := words.getD i 0
  let a := state.a
  let b := state.b
  let c := state.c
  let d := state.d
  let a := FF a b c d (x 0) 7 0xd76aa478
  let d := FF d a b c (x 1) 12 0xe8c7b756
  let c := FF c d a b (x 2) 17 0x242070db
  let b := FF b c d a (x 3) 22 0xc1bdceee
  let a := FF a b c d (x 4) 7 0xf57c0faf
  let d := FF d a b c (x 5) 12 0x4787c62a
  let c := FF c d a b (x 6) 17 0xa8304613
  let b := FF b c d a (x 7) 22 0xfd469501
  let a := FF a b c d (x 8) 7 0x698098d8
  let d := FF d a b c (x 9) 12 0x8b44f7af
  let c := FF c d a b (x 10) 17 0xffff5bb1
  let b := FF b c d a (x 11) 22 0x895cd7be
  let a := FF a b c d (x 12) 7 0x6b901122
  let d := FF d a b c (x 13) 12 0xfd987193
  let c := FF c d a b (x 14) 17 0xa679438e
  let b := FF b c d a (x 15) 22 0x49b40821

  let a := GG a b c d (x 1) 5 0xf61e2562
  let d := GG d a b c (x 6) 9 0xc040b340
  let c := GG c d a b (x 11) 14 0x265e5a51
  let b := GG b c d a (x 0) 20 0xe9b6c7aa
  let a := GG a b c d (x 5) 5 0xd62f105d
  let d := GG d a b c (x 10) 9 0x2441453
  let c := GG c d a b (x 15) 14 0xd8a1e681
  let b := GG b c d a (x 4) 20 0xe7d3fbc8
  let a := GG a b c d (x 9) 5 0x21e1cde6
  let d := GG d a b c (x 14) 9 0xc33707d6
  let c := GG c d a b (x 3) 14 0xf4d50d87
  let b := GG b c d a (x 8) 20 0x455a14ed
  let a := GG a b c d (x 13) 5 0xa9e3e905
  let d := GG d a b c (x 2) 9 0xfcefa3f8
  let c := GG c d a b (x 7) 14 0x676f02d9
  let b := GG b c d a (x 12) 20 0x8d2a4c8a

  let a := HH a b c d (x 5) 4 0xfffa3942
  let d := HH d a b c (x 8) 11 0x8771f681
  let c := HH c d a b (x 11) 16 0x6d9d6122
  let b := HH b c d a (x 14) 23 0xfde5380c
  let a := HH a b c d (x 1) 4 0xa4beea44
  let d := HH d a b c (x 4) 11 0x4bdecfa9
  let c := HH c d a b (x 7) 16 0xf6bb4b60
  let b := HH b c d a (x 10) 23 0xbebfbc70
  let a := HH a b c d (x 13) 4 0x289b7ec6
  let d := HH d a b c (x 0) 11 0xeaa127fa
  let c := HH c d a b (x 3) 16 0xd4ef3085
  let b := HH b c d a (x 6) 23 0x4881d05
  let a := HH a b c d (x 9) 4 0xd9d4d039
  let d := HH d a b c (x 12) 11 0xe6db99e5
  let c := HH c d a b (x 15) 16 0x1fa27cf8
  let b := HH b c d a (x 2) 23 0xc4ac5665

  let a := II a b c d (x 0) 6 0xf4292244
  let d := II d a b c (x 7) 10 0x432aff97
  let c := II c d a b (x 14) 15 0xab9423a7
  let b := II b c d a (x 5) 21 0xfc93a039
  let a := II a b c d (x 12) 6 0x655b59c3
  let d := II d a b c (x 3) 10 0x8f0ccc92
  let c := II c d a b (x 10) 15 0xffeff47d
  let b := II b c d a (x 1) 21 0x85845dd1
  let a := II a b c d (x 8) 6 0x6fa87e4f
  let d := II d a b c (x 15) 10 0xfe2ce6e0
  let c := II c d a b (x 6) 15 0xa3014314
  let b := II b c d a (x 13) 21 0x4e0811a1
  let a := II a b c d (x 4) 6 0xf7537e82
  let d := II d a b c (x 11) 10 0xbd3af235
  let c := II c d a b (x 2) 15 0x2ad7d2bb
  let b := II b c d a (x 9) 21 0xeb86d391
  { a := state.a + a, b := state.b + b, c := state.c + c, d := state.d + d }

def md5Init : MD5_CTX where
  count0 := 0
  count1 := 0
  state := { a := 0x67452301, b := 0xEFCDAB89, c := 0x98BADCFE, d := 0x10325476 }
  buffer := List.replicate 64 0

-- The loop over the whole blocks of the input, and what is left behind them.
def transformBlocks : Nat → State → List UInt8 → State × List UInt8
  | 0, state, input => (state, input)
  | n + 1, state, input => transformBlocks n (md5Transform state (input.take 64)) (input.drop 64)

def md5Update (context : MD5_CTX) (input : List UInt8) : Option MD5_CTX :=
  let inputlen := UInt32.ofNat input.length
  let index := ((context.count0 >>> 3) &&& 0x3F).toNat
  let partlen := 64 - index
  let count0 := context.count0 + inputlen <<< 3
  let carry := if count0 < inputlen <<< 3 then context.count1 + 1 else context.count1
  let count1 := carry + inputlen >>> 29
  if input.length ≥ partlen then do
    let block ← memcpy context.buffer index (input.take partlen)
    let rest := input.drop partlen
    let (state, left) := transformBlocks (rest.length / 64) (md5Transform context.state block) rest
    let buffer ← memcpy block 0 left
    some { count0 := count0, count1 := count1, state := state, buffer := buffer }
  else do
    let buffer ← memcpy context.buffer index input
    some { context with count0 := count0, count1 := count1, buffer := buffer }

def md5Final (context : MD5_CTX) : Option (List UInt8) := do
  let index := ((context.count0 >>> 3) &&& 0x3F).toNat
  let padlen := if index < 56 then 56 - index else 120 - index
  let bits := md5Encode [context.count0, context.count1]
  let context ← md5Update context (PADDING.take padlen)
  let context ← md5Update context bits
  some (md5Encode [context.state.a, context.state.b, context.state.c, context.state.d])

def hexDigit (n : UInt8) : UInt8 := if n < 10 then 48 + n else 87 + n

-- sprintf with "%02x" for each byte of the digest.
def hex (digest : List UInt8) : List UInt8 :=
  digest.flatMap fun (b : UInt8) => [hexDigit (b / 16), hexDigit (b % 16)]

end Md5

-- The length argument is not used: the text ends at its first zero byte.
def getMd5 (str : List UInt8) (_len : Nat) : Option (List UInt8) := do
  let md5 ← Md5.md5Update Md5.md5Init (cString str)
  let md5Value ← Md5.md5Final md5
  some (Md5.hex md5Value)

end Vcu

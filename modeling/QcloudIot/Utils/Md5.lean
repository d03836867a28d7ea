import QcloudIot.Lib.StreamHash

/-!
# MD5 in pieces

`utils_md5.c` with the wrappers of `ota_lib.c`. A context holds the number of bytes fed, the state
after the whole blocks, and the bytes of the block that is not full yet.

* `Md5Context.Holds`: the context has absorbed exactly these bytes, each once and in order;
* `holds_starts`, `Holds.update`: a fresh context, and what an update adds;
* `Holds.digest`, `Holds.finish`: the digest is the one of those bytes, however they were fed.
-/

namespace QcloudIot.Utils

open Lib

/-- A run of bytes. -/
abbrev Bytes := List UInt8

/-! ## The compression function -/

/-- `state[4]`. -/
structure Md5State where
  a : UInt32
  b : UInt32
  c : UInt32
  d : UInt32
  deriving DecidableEq, Repr

/-- `IOT_MD5_GET_UINT32_LE`. -/
def getUint32Le (data : Bytes) (i : Nat) : UInt32 :=
  (data.getD i 0).toUInt32 ||| (data.getD (i + 1) 0).toUInt32 <<< 8 |||
    (data.getD (i + 2) 0).toUInt32 <<< 16 ||| (data.getD (i + 3) 0).toUInt32 <<< 24

/-- `IOT_MD5_PUT_UINT32_LE`. -/
def putUint32Le (n : UInt32) : Bytes :=
  [n.toUInt8, (n >>> 8).toUInt8, (n >>> 16).toUInt8, (n >>> 24).toUInt8]

/-- The four functions `F` of the rounds. -/
def md5F : Fin 4 → UInt32 → UInt32 → UInt32 → UInt32
  | 0, x, y, z => z ^^^ (x &&& (y ^^^ z))
  | 1, x, y, z => y ^^^ (z &&& (x ^^^ y))
  | 2, x, y, z => x ^^^ y ^^^ z
  | 3, x, y, z => y ^^^ (x ||| ~~~z)

/-- The arguments `k`, `s`, `t` of the sixteen uses of `P` in each round. -/
def md5Rounds : List (Fin 4 × List (Nat × UInt32 × UInt32)) :=
  [(0, [(0, 7, 0xD76AA478), (1, 12, 0xE8C7B756), (2, 17, 0x242070DB), (3, 22, 0xC1BDCEEE),
      (4, 7, 0xF57C0FAF), (5, 12, 0x4787C62A), (6, 17, 0xA8304613), (7, 22, 0xFD469501),
      (8, 7, 0x698098D8), (9, 12, 0x8B44F7AF), (10, 17, 0xFFFF5BB1), (11, 22, 0x895CD7BE),
      (12, 7, 0x6B901122), (13, 12, 0xFD987193), (14, 17, 0xA679438E), (15, 22, 0x49B40821)]),
    (1, [(1, 5, 0xF61E2562), (6, 9, 0xC040B340), (11, 14, 0x265E5A51), (0, 20, 0xE9B6C7AA),
      (5, 5, 0xD62F105D), (10, 9, 0x02441453), (15, 14, 0xD8A1E681), (4, 20, 0xE7D3FBC8),
      (9, 5, 0x21E1CDE6), (14, 9, 0xC33707D6), (3, 14, 0xF4D50D87), (8, 20, 0x455A14ED),
      (13, 5, 0xA9E3E905), (2, 9, 0xFCEFA3F8), (7, 14, 0x676F02D9), (12, 20, 0x8D2A4C8A)]),
    (2, [(5, 4, 0xFFFA3942), (8, 11, 0x8771F681), (11, 16, 0x6D9D6122), (14, 23, 0xFDE5380C),
      (1, 4, 0xA4BEEA44), (4, 11, 0x4BDECFA9), (7, 16, 0xF6BB4B60), (10, 23, 0xBEBFBC70),
      (13, 4, 0x289B7EC6), (0, 11, 0xEAA127FA), (3, 16, 0xD4EF3085), (6, 23, 0x04881D05),
      (9, 4, 0xD9D4D039), (12, 11, 0xE6DB99E5), (15, 16, 0x1FA27CF8), (2, 23, 0xC4AC5665)]),
    (3, [(0, 6, 0xF4292244), (7, 10, 0x432AFF97), (14, 15, 0xAB9423A7), (5, 21, 0xFC93A039),
      (12, 6, 0x655B59C3), (3, 10, 0x8F0CCC92), (10, 15, 0xFFEFF47D), (1, 21, 0x85845DD1),
      (8, 6, 0x6FA87E4F), (15, 10, 0xFE2CE6E0), (6, 15, 0xA3014314), (13, 21, 0x4E0811A1),
      (4, 6, 0xF7537E82), (11, 10, 0xBD3AF235), (2, 15, 0x2AD7D2BB), (9, 21, 0xEB86D391)])]

/-- `P(a, b, c, d, k, s, t)`. The variables change places for the next use: it is `P(d, a, b, c)`. -/
def md5P (f : Fin 4) (x : UInt32) (s t : UInt32) (v : Md5State) : Md5State :=
  let a := v.a + (md5F f v.b v.c v.d + x + t)
  ⟨v.d, (a <<< s ||| a >>> (32 - s)) + v.b, v.b, v.c⟩

/-- `utils_md5_process`. -/
def utilsMd5Process (state : Md5State) (data : Bytes) : Md5State :=
  let v := md5Rounds.foldl (fun v round => round.2.foldl (fun v step =>
    md5P round.1 (getUint32Le data (4 * step.1)) step.2.1 step.2.2 v) v) state
  ⟨state.a + v.a, state.b + v.b, state.c + v.c, state.d + v.d⟩

/-! ## The context -/

/-- `iot_md5_context`. -/
structure Md5Context where
  total0 : UInt32
  total1 : UInt32
  state : Md5State
  buffer : Memory UInt8

/-- The state `utils_md5_starts` sets. -/
def md5Start : Md5State := ⟨0x67452301, 0xEFCDAB89, 0x98BADCFE, 0x10325476⟩

/-- `utils_md5_init` and `utils_md5_starts`. -/
def utilsMd5Starts : Md5Context := ⟨0, 0, md5Start, fun _ => 0⟩

/-- The whole blocks of an input and what is left of it: the loop of `utils_md5_update`. -/
abbrev md5Absorb (state : Md5State) (input : Bytes) : Md5State × Bytes :=
  absorb utilsMd5Process 64 state input

/-- `utils_md5_update`. -/
def utilsMd5Update (ctx : Md5Context) (input : Bytes) : Md5Context :=
  if input = [] then ctx
  else
    let left := (ctx.total0 &&& 0x3F).toNat
    let fill := 64 - left
    let total0 := ctx.total0 + UInt32.ofNat input.length
    let total1 := if total0 < UInt32.ofNat input.length then ctx.total1 + 1 else ctx.total1
    if left ≠ 0 ∧ input.length ≥ fill then
      let buffer := ctx.buffer.store left (input.take fill)
      let r := md5Absorb (utilsMd5Process ctx.state (buffer.load 0 64)) (input.drop fill)
      ⟨total0, total1, r.1, buffer.store 0 r.2⟩
    else
      let r := md5Absorb ctx.state input
      ⟨total0, total1, r.1, ctx.buffer.store left r.2⟩

/-- `iot_md5_padding`. -/
def iotMd5Padding : Bytes := 0x80 :: List.replicate 63 0

/-- `utils_md5_finish`. -/
def utilsMd5Finish (ctx : Md5Context) : Bytes :=
  let high := ctx.total0 >>> 29 ||| ctx.total1 <<< 3
  let low := ctx.total0 <<< 3
  let last := (ctx.total0 &&& 0x3F).toNat
  let padn := if last < 56 then 56 - last else 120 - last
  let ctx := utilsMd5Update ctx (iotMd5Padding.take padn)
  let ctx := utilsMd5Update ctx (putUint32Le low ++ putUint32Le high)
  putUint32Le ctx.state.a ++ putUint32Le ctx.state.b ++ putUint32Le ctx.state.c ++
    putUint32Le ctx.state.d

/-- `utils_hb2hex`. -/
def utilsHb2hex (hb : UInt8) : UInt8 :=
  let hb := hb &&& 0xF
  if hb < 10 then 48 + hb else hb - 10 + 97

/-- `qcloud_otalib_md5_finalize`: the digest as thirty-two characters. -/
def qcloudOtalibMd5Finalize (ctx : Md5Context) : Bytes :=
  (utilsMd5Finish ctx).flatMap fun (b : UInt8) => [utilsHb2hex (b >>> 4), utilsHb2hex b]

example : qcloudOtalibMd5Finalize (utilsMd5Update utilsMd5Starts [97, 98, 99]) =
    "900150983cd24fb0d6963f7d28e17f72".toList.map fun c => c.toNat.toUInt8 := by
  decide +kernel

/-! ## What a context has absorbed -/

/-- The context has absorbed exactly these bytes, each once and in order. -/
structure Md5Context.Holds (ctx : Md5Context) (bs : Bytes) : Prop where
  total0 : ctx.total0 = UInt32.ofNat bs.length
  total1 : ctx.total1 = UInt32.ofNat (bs.length / 2 ^ 32)
  state : ctx.state = (md5Absorb md5Start bs).1
  buffer : ctx.buffer.load 0 (bs.length % 64) = (md5Absorb md5Start bs).2

theorem holds_starts : utilsMd5Starts.Holds [] := ⟨rfl, rfl, rfl, rfl⟩

/-- The context as a stream of its compression. -/
def Md5Context.stream (ctx : Md5Context) : HashStream Md5State :=
  ⟨ctx.total0, ctx.total1, ctx.state, ctx.buffer⟩

theorem stream_update (ctx : Md5Context) (input : Bytes) :
    (utilsMd5Update ctx input).stream = ctx.stream.feed utilsMd5Process input := by
  rw [utilsMd5Update, apply_ite Md5Context.stream]
  simp only [apply_ite Md5Context.stream]
  rfl

theorem holds_iff_stream {ctx : Md5Context} {bs : Bytes} :
    ctx.Holds bs ↔ ctx.stream.Holds utilsMd5Process md5Start bs :=
  ⟨fun h => ⟨h.total0, h.total1, h.state, h.buffer⟩, fun h => ⟨h.total0, h.total1, h.state, h.buffer⟩⟩

/-- **What an update adds.** -/
theorem Md5Context.Holds.update {ctx : Md5Context} {bs : Bytes} (h : ctx.Holds bs)
    {input : Bytes} (hlen : input.length < 2 ^ 32) :
    (utilsMd5Update ctx input).Holds (bs ++ input) := by
  rw [holds_iff_stream, stream_update]
  exact (holds_iff_stream.mp h).feed hlen

/-- MD5 by its compression. -/
def md5Hash : PaddedHash Md5State where
  process := utilsMd5Process
  start := md5Start
  count high low := putUint32Le low ++ putUint32Le high
  output s := putUint32Le s.a ++ putUint32Le s.b ++ putUint32Le s.c ++ putUint32Le s.d
  length_count _ _ := rfl

/-- A finish closes the stream. -/
theorem utilsMd5Finish_stream (ctx : Md5Context) :
    utilsMd5Finish ctx = md5Hash.output (md5Hash.finish ctx.stream).state := by
  have hpadding : iotMd5Padding = hashPadding := rfl
  have hprocess : md5Hash.process = utilsMd5Process := rfl
  have hcount : ∀ high low, md5Hash.count high low = putUint32Le low ++ putUint32Le high :=
    fun _ _ => rfl
  rw [PaddedHash.finish, hprocess, hcount, ← stream_update, ← stream_update, ← hpadding]
  rfl

/-- **The digest** is that of the padded bytes. -/
theorem Md5Context.Holds.digest {ctx : Md5Context} {bs : Bytes} (h : ctx.Holds bs) :
    utilsMd5Finish ctx = md5Hash.hash bs := by
  rw [utilsMd5Finish_stream]
  exact md5Hash.finish_eq (holds_iff_stream.mp h)

/-- The digest depends on the bytes absorbed and on nothing else. -/
theorem Md5Context.Holds.finish {ctx : Md5Context} {bs : Bytes} (h : ctx.Holds bs)
    {ctx' : Md5Context} (h' : ctx'.Holds bs) : utilsMd5Finish ctx = utilsMd5Finish ctx' := by
  rw [h.digest, h'.digest]

end QcloudIot.Utils

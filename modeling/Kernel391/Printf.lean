import Kernel391.Lib.Traced
import Kernel391.FileSystem

/-!
# `printf` and `itoa`

The formatted output of `lib.c`. The local buffer of a conversion is memory with a size,
and what is stored or read outside it has no value. Output is the list of characters given
to `putc`.

`printf` is traced: it notes the bytes of the format it reads, the words it takes off the
stack and the characters it prints.
-/

namespace Kernel391

open Trace

/-! ## Local buffers -/

/-- `buf[i] = c` in a buffer of a size. -/
def storeIn (size : ℕ) (buf : Bytes) (i : ℕ) (c : UInt8) : Option Bytes :=
  if i < size then some (Function.update buf i c) else none

def loadIn (size : ℕ) (buf : Bytes) (i : ℕ) : Option UInt8 :=
  if i < size then some (buf i) else none

/-- `strlen` of the string at `s` in a buffer. -/
def strlenIn (size : ℕ) (buf : Bytes) (s : ℕ) : Option ℕ :=
  let len := strlen fun i => buf (s + i)
  if s + len < size then some len else none

/-- The characters `puts` prints; without a NUL it does not end. -/
def putsBytes (s : Bytes) : Option (List UInt8) :=
  if s (strlen s) = 0 then some ((List.range (strlen s)).map s) else none

/-- `puts` of the string at `s` in a buffer. -/
def putsIn (size : ℕ) (buf : Bytes) (s : ℕ) : Option (List UInt8) := do
  let _ ← strlenIn size buf s
  putsBytes fun i => buf (s + i)

/-! ## `itoa` -/

/-- The digits, and the NUL at the end of the literal. -/
def lookup : List UInt8 :=
  "0123456789ABCDEFGHIJKLMNOPQRSTUVWXYZ".toList.map Char.toUInt8 ++ [0]

/-- The loop of `strrev`, with `rounds` as its bound. -/
def strrevFrom (size : ℕ) (s : ℕ) : ℕ → Bytes → ℤ → ℤ → Option Bytes
  | 0, buf, first, last => if first < last then none else some buf
  | rounds + 1, buf, first, last =>
    if first < last then do
      let tmp ← loadIn size buf (s + last.toNat)
      let c ← loadIn size buf (s + first.toNat)
      let buf ← storeIn size buf (s + last.toNat) c
      let buf ← storeIn size buf (s + first.toNat) tmp
      strrevFrom size s rounds buf (first + 1) (last - 1)
    else some buf

def strrev (size : ℕ) (buf : Bytes) (s : ℕ) : Option Bytes := do
  let len ← strlenIn size buf s
  strrevFrom size s len buf 0 (len - 1)

/-- The loop of `itoa`: the digits from the lowest place on. A division by zero faults. -/
def itoaFrom (size radix : ℕ) : ℕ → ℕ → Bytes → ℕ → Option (Bytes × ℕ)
  | 0, newval, buf, newbuf => if 0 < newval then none else some (buf, newbuf)
  | rounds + 1, newval, buf, newbuf =>
    if 0 < newval then
      if radix = 0 then none
      else do
        let c ← lookup[newval % radix]?
        let buf ← storeIn size buf newbuf c
        itoaFrom size radix rounds (newval / radix) buf (newbuf + 1)
    else some (buf, newbuf)

/-- `itoa(value, &buf[s], radix)` in a buffer. -/
def itoa (size : ℕ) (value : UInt32) (buf : Bytes) (s : ℕ) (radix : ℕ) : Option Bytes :=
  if value = 0 then do
    let buf ← storeIn size buf s '0'.toUInt8
    storeIn size buf (s + 1) 0
  else do
    let (buf, newbuf) ← itoaFrom size radix 32 value.toNat buf s
    let buf ← storeIn size buf newbuf 0
    strrev size buf s

/-! ## The conversions -/

/-- `while (i < 8) conv_buf[i++] = '0';` -/
def zeroFill (size : ℕ) : ℕ → Bytes → ℕ → Option Bytes
  | 0, buf, i => if i < 8 then none else some buf
  | rounds + 1, buf, i =>
    if i < 8 then do
      let buf ← storeIn size buf i '0'.toUInt8
      zeroFill size rounds buf (i + 1)
    else some buf

/-- `%x` and `%#x`, with 64 bytes of stack as the local buffer. -/
def printHex (alternate : Bool) (conv_buf : Bytes) (word : UInt32) : Option (List UInt8) :=
  if alternate = false then do
    let conv_buf ← itoa 64 word conv_buf 0 16
    putsIn 64 conv_buf 0
  else do
    let conv_buf ← itoa 64 word conv_buf 8 16
    let starting_index ← strlenIn 64 conv_buf 8
    let conv_buf ← zeroFill 64 8 conv_buf starting_index
    putsIn 64 conv_buf starting_index

/-- `%u`. -/
def printUnsigned (conv_buf : Bytes) (word : UInt32) : Option (List UInt8) := do
  let conv_buf ← itoa 36 word conv_buf 0 10
  putsIn 36 conv_buf 0

/-- `%d`. The negated value is passed on as an unsigned number. -/
def printSigned (conv_buf : Bytes) (word : UInt32) : Option (List UInt8) :=
  if word.toInt32 < 0 then do
    let conv_buf ← storeIn 36 conv_buf 0 '-'.toUInt8
    let conv_buf ← itoa 36 (-word.toInt32).toUInt32 conv_buf 1 10
    putsIn 36 conv_buf 0
  else do
    let conv_buf ← itoa 36 word conv_buf 0 10
    putsIn 36 conv_buf 0

/-! ## `printf` -/

/-- A call: the format, the words on the stack after the pointer to it, the strings their
pointers stand for, and what the stack holds where local buffers go. -/
structure PrintfCall where
  format : Bytes
  args : ℕ → UInt32
  memory : UInt32 → Bytes
  conv_buf : Bytes

inductive PrintfEvent
  | read (offset : ℕ)
  | take (index : ℕ)
  | put (c : UInt8)
deriving DecidableEq, Repr

/-- The conversions that print a word of the stack. -/
def takesArgument (c : UInt8) : Bool :=
  c == 'x'.toUInt8 || c == 'u'.toUInt8 || c == 'd'.toUInt8 || c == 'c'.toUInt8 ||
    c == 's'.toUInt8

/-- What they print. -/
def PrintfCall.convert (call : PrintfCall) (alternate : Bool) (c : UInt8) (word : UInt32) :
    Option (List UInt8) :=
  if c = 'x'.toUInt8 then printHex alternate call.conv_buf word
  else if c = 'u'.toUInt8 then printUnsigned call.conv_buf word
  else if c = 'd'.toUInt8 then printSigned call.conv_buf word
  else if c = 'c'.toUInt8 then some [word.toUInt8]
  else putsBytes (call.memory word)

/-- `format_char_switch`: the offset it ends at, and the next word of the stack. -/
def formatCharSwitch (call : PrintfCall) :
    ℕ → Bool → ℕ → ℕ → Traced PrintfEvent (ℕ × ℕ)
  | 0, _, _, _ => Traced.ofOption none
  | rounds + 1, alternate, buf, esp => do
    Traced.emit (.read buf)
    if call.format buf = '%'.toUInt8 then
      Traced.emit (.put '%'.toUInt8)
      pure (buf, esp)
    else if call.format buf = '#'.toUInt8 then
      formatCharSwitch call rounds true (buf + 1) esp
    else if takesArgument (call.format buf) then
      Traced.emit (.take esp)
      let out ← Traced.ofOption (call.convert alternate (call.format buf) (call.args esp))
      Traced.emits (out.map .put)
      pure (buf, esp + 1)
    else pure (buf, esp)

/-- The loop of `printf`, at an offset of the format and a word of the stack. -/
def printfFrom (call : PrintfCall) : ℕ → ℕ → ℕ → Traced PrintfEvent ℕ
  | 0, _, _ => Traced.ofOption none
  | rounds + 1, buf, esp => do
    Traced.emit (.read buf)
    if call.format buf = 0 then pure buf
    else if call.format buf = '%'.toUInt8 then
      let (buf, esp) ← formatCharSwitch call (rounds + 1) false (buf + 1) esp
      printfFrom call rounds (buf + 1) esp
    else
      Traced.emit (.put (call.format buf))
      printfFrom call rounds (buf + 1) esp

/-- The value returned is the distance gone, as an `int32_t`. -/
def printf (call : PrintfCall) : Traced PrintfEvent ℤ := do
  let buf ← printfFrom call (addressSpace + 1) 0 0
  pure (toInt32 buf)

end Kernel391

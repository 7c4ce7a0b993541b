/- Kcptun/Rs/Simd
   source: crates/kcp/src/rs/simd/mod.rs, rs/simd/x86.rs, rs/galois.rs (MUL_TABLE_LOW,
     MUL_TABLE_HIGH)
   digest: The vector kernels of the coding loop: registers byte by byte, loads and stores that
     fault outside a slice, the groups of outputs and the steps, and their dispatch. -/

import Kcptun.Rs.Codec

set_option autoImplicit false
set_option relaxedAutoImplicit false

namespace Kcptun.Rs.Simd

open Kcptun.Rs
open Kcptun.Lib.LittleEndian

/-- How a kernel can fail: a failed check panics, a raw access outside a slice is undefined. -/
inductive Fault where
  | panic
  | outOfBounds
  deriving DecidableEq, Repr

/-- A vector register of `l` lanes of sixteen bytes. -/
abbrev Reg (l : ℕ) := Fin (16 * l) → UInt8

section Intrinsics

variable {l : ℕ}

def setzero : Reg l := fun _ => 0

def set1 (b : UInt8) : Reg l := fun _ => b

def and (a b : Reg l) : Reg l := fun j => a j &&& b j

def xor (a b : Reg l) : Reg l := fun j => a j ^^^ b j

/-- `srli_epi64::<4>`: in each word of eight bytes, the low half of the next byte comes in. -/
def srli4 (a : Reg l) : Reg l := fun j =>
  if h : j.val % 8 = 7 then a j >>> 4
  else a j >>> 4 ||| a ⟨j.val + 1, by omega⟩ <<< 4

/-- `shuffle_epi8`: within each lane, the byte a control byte names; none when its top bit is set. -/
def shuffle (a control : Reg l) : Reg l := fun j =>
  if control j ≥ 0x80 then 0
  else a ⟨16 * (j.val / 16) + (control j).toNat % 16, by omega⟩

/-- `broadcastsi128`: one lane in all of them. -/
def broadcast (a : Reg 1) : Reg l := fun j => a ⟨j.val % 16, by omega⟩

/-- `loadu`: the bytes at `pos` of a slice. -/
def loadu (mem : Bytes) (pos : ℕ) : Except Fault (Reg l) :=
  if pos + 16 * l ≤ mem.length then .ok fun j => mem.getD (pos + j.val) 0
  else .error .outOfBounds

/-- `storeu`: a register over the bytes at `pos` of a slice. -/
def storeu (mem : Bytes) (pos : ℕ) (a : Reg l) : Except Fault Bytes :=
  if pos + 16 * l ≤ mem.length then
    .ok (mem.take pos ++ List.ofFn a ++ mem.drop (pos + 16 * l))
  else .error .outOfBounds

end Intrinsics

def mulTableLow (c : UInt8) (x : Fin 16) : UInt8 := galMultiply c (UInt8.ofNat x.val)

def mulTableHigh (c : UInt8) (x : Fin 16) : UInt8 := galMultiply c (UInt8.ofNat (x.val * 16))

def tables128 (c : UInt8) : Reg 1 × Reg 1 := (mulTableLow c, mulTableHigh c)

def tables256 (c : UInt8) : Reg 2 × Reg 2 :=
  (broadcast (tables128 c).1, broadcast (tables128 c).2)

section Steps

variable {l : ℕ} (tables : UInt8 → Reg l × Reg l)

def nibbles (x : Reg l) : Reg l × Reg l := (and x (set1 0x0f), and (srli4 x) (set1 0x0f))

def product (c : UInt8) (x : Reg l × Reg l) : Reg l :=
  xor (shuffle (tables c).1 x.1) (shuffle (tables c).2 x.2)

def mulAdd (rows : List Bytes) (i : ℕ) (xs : List (Reg l × Reg l)) (acc : List (List (Reg l))) :
    Except Fault (List (List (Reg l))) :=
  (rows.zip acc).mapM fun p =>
    match p.1[i]? with
    | none => .error .panic
    | some c => .ok (List.zipWith (fun a x => xor a (product tables c x)) p.2 xs)

def accumulate (load : Bytes → Except Fault (List (Reg l))) (v : ℕ) (rows inputs : List Bytes) :
    Except Fault (List (List (Reg l))) :=
  inputs.zipIdx.foldlM (fun acc input => do
    let xs ← load input.1
    mulAdd tables rows input.2 (xs.map nibbles) acc) (rows.map fun _ => List.replicate v setzero)

def writeVector (isXor : Bool) (pos : ℕ) (out : Bytes) (a : Reg l × ℕ) : Except Fault Bytes := do
  let dst := pos + 16 * l * a.2
  if isXor then
    let old ← loadu out dst
    storeu out dst (xor a.1 old)
  else storeu out dst a.1

/-- `v` vectors at `pos` of every output, from all inputs. -/
def step (v : ℕ) (isXor : Bool) (rows inputs outputs : List Bytes) (pos : ℕ) :
    Except Fault (List Bytes) := do
  let load := fun input => (List.range v).mapM fun k => loadu input (pos + 16 * l * k)
  let acc ← accumulate tables load v rows inputs
  (outputs.zip acc).mapM fun p => p.2.zipIdx.foldlM (writeVector isXor pos) p.1

end Steps

def step128 := @step 1 tables128

def step256 := @step 2 tables256

/-- The bytes at `pos..pos + rem` of an input, padded with zeros. -/
def padded (pos rem : ℕ) (input : Bytes) : Except Fault (List (Reg 1)) :=
  if pos + rem ≤ input.length then
    .ok [fun j => (((input.drop pos).take rem) ++ List.replicate (16 - rem) 0).getD j.val 0]
  else .error .panic

def writePartial (isXor : Bool) (pos rem : ℕ) (out : Bytes) (acc : List (Reg 1)) :
    Except Fault Bytes :=
  if pos + rem ≤ out.length then
    let buf := (List.ofFn (acc.headD setzero)).take rem
    let dst := (out.drop pos).take rem
    .ok (out.take pos ++ (if isXor then List.zipWith (fun d b => d ^^^ b) dst buf else buf) ++
      out.drop (pos + rem))
  else .error .panic

def partial128 (isXor : Bool) (rows inputs outputs : List Bytes) (pos rem : ℕ) :
    Except Fault (List Bytes) := do
  let acc ← accumulate tables128 (padded pos rem) 1 rows inputs
  (outputs.zip acc).mapM fun p => writePartial isXor pos rem p.1 p.2

/-- Steps of `width` bytes while they fit; the outputs and the position after them. -/
def strides (stepAt : List Bytes → ℕ → Except Fault (List Bytes)) (width stop : ℕ) :
    ℕ → List Bytes × ℕ → Except Fault (List Bytes × ℕ)
  | 0, s => .ok s
  | fuel + 1, s =>
    if stop - s.2 ≥ width then
      (stepAt s.1 s.2).bind fun outputs => strides stepAt width stop fuel (outputs, s.2 + width)
    else .ok s

def group (n : ℕ) (rows inputs outputs : List Bytes) : Except Fault Unit :=
  if rows.length = n ∧ outputs.length = n ∧ ∀ row ∈ rows, inputs.length ≤ row.length then .ok ()
  else .error .panic

/-- The last bytes of a group, when there are any. -/
def finish (isXor : Bool) (rows inputs : List Bytes) (stop : ℕ) (s : List Bytes × ℕ) :
    Except Fault (List Bytes) :=
  if s.2 < stop then partial128 isXor rows inputs s.1 s.2 (stop - s.2) else .ok s.1

/-- The loop of two vectors a step, which only groups of up to three outputs run. -/
def unrolled (n : ℕ) (stepAt : List Bytes → ℕ → Except Fault (List Bytes)) (width stop fuel : ℕ)
    (s : List Bytes × ℕ) : Except Fault (List Bytes × ℕ) :=
  if n ≤ 3 then strides stepAt width stop fuel s else .ok s

def codeGroupSsse3 (n : ℕ) (isXor : Bool) (rows inputs outputs : List Bytes) (start stop : ℕ) :
    Except Fault (List Bytes) := do
  group n rows inputs outputs
  let s ← unrolled n (step128 2 isXor rows inputs) 32 stop (stop - start) (outputs, start)
  let s ← strides (step128 1 isXor rows inputs) 16 stop (stop - start) s
  finish isXor rows inputs stop s

def codeGroupAvx2 (n : ℕ) (isXor : Bool) (rows inputs outputs : List Bytes) (start stop : ℕ) :
    Except Fault (List Bytes) := do
  group n rows inputs outputs
  let s ← unrolled n (step256 2 isXor rows inputs) 64 stop (stop - start) (outputs, start)
  let s ← strides (step256 1 isXor rows inputs) 32 stop (stop - start) s
  let s ← strides (step128 1 isXor rows inputs) 16 stop 1 s
  finish isXor rows inputs stop s

inductive Kernel where
  | scalar
  | ssse3
  | avx2
  deriving DecidableEq, Repr

def OUTPUT_GROUP : ℕ := 4

def codeGroup (kernel : Kernel) (n : ℕ) (rows inputs outputs : List Bytes) (start stop : ℕ) :
    Except Fault (List Bytes) :=
  match kernel with
  | .scalar => .ok (codeBlock rows inputs outputs start stop)
  | .ssse3 => codeGroupSsse3 n false rows inputs outputs start stop
  | .avx2 => codeGroupAvx2 n false rows inputs outputs start stop

/-- The groups of `code_block`, four outputs each but the last. -/
def codeGroups (kernel : Kernel) (inputs : List Bytes) (start stop : ℕ) :
    ℕ → List Bytes → List Bytes → Except Fault (List Bytes)
  | 0, _, outputs => .ok outputs
  | fuel + 1, rows, outputs =>
    if rows = [] ∨ outputs = [] then .ok outputs
    else do
      let group := rows.take OUTPUT_GROUP
      let outs ← codeGroup kernel (if group.length < OUTPUT_GROUP then group.length else OUTPUT_GROUP)
        group inputs (outputs.take OUTPUT_GROUP) start stop
      let rest ← codeGroups kernel inputs start stop fuel (rows.drop OUTPUT_GROUP)
        (outputs.drop OUTPUT_GROUP)
      .ok (outs ++ rest)

/-- `code_block`: `outputs[r][start..stop]` is the combination of the inputs with row `r`. -/
def codeBlockWith (kernel : Kernel) (rows inputs outputs : List Bytes) (start stop : ℕ) :
    Except Fault (List Bytes) :=
  if inputs = [] ∨ outputs = [] then .ok outputs
  else if start ≤ stop ∧ rows.length = outputs.length ∧
      (∀ row ∈ rows, inputs.length ≤ row.length) ∧ (∀ s ∈ inputs, stop ≤ s.length) ∧
      ∀ s ∈ outputs, stop ≤ s.length then
    if kernel = .scalar then .ok (codeBlock rows inputs outputs start stop)
    else codeGroups kernel inputs start stop outputs.length rows outputs
  else .error .panic

/-- `mul_slice`: input and output have the same length. -/
def mulSlice (kernel : Kernel) (isXor : Bool) (c : UInt8) (input out : Bytes) :
    Except Fault Bytes :=
  match kernel with
  | .scalar => .ok (if isXor then galMulSliceXor c input out else galMulSlice c input)
  | .ssse3 => (codeGroupSsse3 1 isXor [[c]] [input] [out] 0 input.length).map (·.headD [])
  | .avx2 => (codeGroupAvx2 1 isXor [[c]] [input] [out] 0 input.length).map (·.headD [])

/-- `gal_mul_slice` with a kernel: the part of `out` past the input is not handed over. -/
def galMulSliceWith (kernel : Kernel) (c : UInt8) (input out : Bytes) : Except Fault Bytes :=
  if input.length ≤ out.length then
    (if c = 1 then .ok input else mulSlice kernel false c input (out.take input.length)).map
      (· ++ out.drop input.length)
  else .error .panic

def galMulSliceXorWith (kernel : Kernel) (c : UInt8) (input out : Bytes) : Except Fault Bytes :=
  if input.length ≤ out.length then
    (if c = 1 then .ok (sliceXor input (out.take input.length))
      else mulSlice kernel true c input (out.take input.length)).map (· ++ out.drop input.length)
  else .error .panic

end Kcptun.Rs.Simd

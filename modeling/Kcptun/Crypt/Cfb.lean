/- Kcptun/Crypt/Cfb
   source: crates/kcp/src/crypt/cfb.rs
   digest: Packet CFB in place: the serial encryption, the decryption in batches of eight blocks, and
     that each undoes the other for every block function. -/

import Kcptun.Lib.Chunks
import Kcptun.Lib.CipherFeedback
import Kcptun.Session.Crypt

set_option autoImplicit false
set_option relaxedAutoImplicit false

namespace Kcptun.Crypt

open Kcptun.Lib Kcptun.Lib.LittleEndian

def INITIAL_VECTOR : Chunk UInt8 16 :=
  ⟨[167, 115, 79, 156, 18, 172, 27, 1, 164, 21, 242, 193, 252, 120, 230, 107], rfl⟩

def LANES : ℕ := 8

abbrev Block (BS : ℕ) := Chunk UInt8 BS

/-- The bytes of `dst`, those under `src` changed. -/
def xorInPlace : Bytes → Bytes → Bytes
  | d :: dst, s :: src => (d ^^^ s) :: xorInPlace dst src
  | dst, [] => dst
  | [], _ => []

@[simp] theorem xorInPlace_nil (src : Bytes) : xorInPlace [] src = [] := by
  cases src <;> rfl

@[simp] theorem length_xorInPlace (dst src : Bytes) : (xorInPlace dst src).length = dst.length := by
  induction dst, src using xorInPlace.induct with
  | case1 d dst s src ih => rw [xorInPlace, List.length_cons, List.length_cons, ih]
  | case2 dst => cases dst <;> rfl
  | case3 src => rw [xorInPlace_nil]

private theorem xorInPlace_cancel (dst src : Bytes) :
    xorInPlace (xorInPlace dst src) src = dst := by
  induction dst, src using xorInPlace.induct with
  | case1 d dst s src ih => rw [xorInPlace, xorInPlace, ih, UInt8.xor_assoc, UInt8.xor_self,
      UInt8.xor_zero]
  | case2 dst => cases dst <;> rfl
  | case3 src => rw [xorInPlace_nil, xorInPlace_nil]

variable {BS : ℕ}

def Block.xor (b k : Block BS) : Block BS :=
  ⟨xorInPlace b.val k.val, (length_xorInPlace _ _).trans b.2⟩

private theorem Block.xor_cancel (b k : Block BS) : (b.xor k).xor k = b :=
  Subtype.ext (xorInPlace_cancel b.val k.val)

/-- A block cipher usable by the engine: forward encryption only, which need not be invertible. The
batch may be pipelined, but each lane is encrypted for itself. -/
structure CfbBlock (BS : ℕ) where
  size : BS = 8 ∨ BS = 16
  encryptBlock : Block BS → Block BS
  encryptBlocks : Chunk (Block BS) LANES → Chunk (Block BS) LANES
  lanes : ∀ blocks, (encryptBlocks blocks).val = blocks.val.map encryptBlock

namespace CfbBlock

/-- The batch as the trait provides it: one block after the other. -/
def serial (size : BS = 8 ∨ BS = 16) (encryptBlock : Block BS → Block BS) : CfbBlock BS where
  size := size
  encryptBlock := encryptBlock
  encryptBlocks blocks := ⟨blocks.val.map encryptBlock, by rw [List.length_map, blocks.2]⟩
  lanes _ := rfl

variable (c : CfbBlock BS)

def initialVector : Block BS :=
  ⟨INITIAL_VECTOR.val.take BS, by
    rw [List.length_take, INITIAL_VECTOR.2]
    have := c.size
    omega⟩

def initialTbl : Block BS := c.encryptBlock c.initialVector

/-- The loop of `encrypt`: the blocks and the last `tbl`. -/
def encryptLoop : Block BS → List (Block BS) → List (Block BS) × Block BS
  | tbl, [] => ([], tbl)
  | tbl, b :: blocks =>
    let b := b.xor tbl
    let rest := encryptLoop (c.encryptBlock b) blocks
    (b :: rest.1, rest.2)

def encrypt (buf : Bytes) : Bytes :=
  let chunks := asChunks BS buf
  let done := c.encryptLoop c.initialTbl chunks.1
  unchunk done.1 ++ xorInPlace chunks.2 done.2.val

/-- The inputs of the keystream of a batch: `x`, then all blocks but the last. -/
def keystream (x : Block BS) (batch : Chunk (Block BS) LANES) : Chunk (Block BS) LANES :=
  ⟨List.ofFn fun i : Fin LANES => if i.val = 0 then x else batch.val.get ⟨i.val - 1, by
      rw [batch.2]
      omega⟩, List.length_ofFn⟩

def lastOf (batch : Chunk (Block BS) LANES) : Block BS :=
  batch.val.get ⟨LANES - 1, by
    rw [batch.2]
    decide⟩

/-- The loop over the batches: the blocks and the last `x`. -/
def decryptBatches : Block BS → List (Chunk (Block BS) LANES) → List (Block BS) × Block BS
  | x, [] => ([], x)
  | x, batch :: batches =>
    let ks := c.encryptBlocks (keystream x batch)
    let rest := decryptBatches (lastOf batch) batches
    (List.zipWith Block.xor batch.val ks.val ++ rest.1, rest.2)

/-- The serial loop over the blocks behind the last batch: the blocks and the last `tbl`. -/
def decryptTail : Block BS → List (Block BS) → List (Block BS) × Block BS
  | tbl, [] => ([], tbl)
  | tbl, b :: tail =>
    let next := c.encryptBlock b
    let rest := decryptTail next tail
    (b.xor tbl :: rest.1, rest.2)

def decrypt (buf : Bytes) : Bytes :=
  let chunks := asChunks BS buf
  let batches := asChunks LANES chunks.1
  let head := c.decryptBatches c.initialVector batches.1
  if batches.2.isEmpty && chunks.2.isEmpty then unchunk (head.1 ++ batches.2) ++ chunks.2
  else
    let done := c.decryptTail (c.encryptBlock head.2) batches.2
    unchunk (head.1 ++ done.1) ++ xorInPlace chunks.2 done.2.val

/-- The plaintext of the packet mode, one block after the other. -/
def serialPlaintext (buf : Bytes) : Bytes :=
  let chunks := asChunks BS buf
  unchunk (feedbackDecrypt Block.xor c.encryptBlock c.initialVector chunks.1) ++
    xorInPlace chunks.2 (c.encryptBlock (feedback c.initialVector chunks.1)).val

private theorem size_pos (c : CfbBlock BS) : 0 < BS := by
  have := c.size
  omega

variable {c}

private theorem encryptLoop_eq (x : Block BS) (blocks : List (Block BS)) :
    c.encryptLoop (c.encryptBlock x) blocks =
      (feedbackEncrypt Block.xor c.encryptBlock x blocks,
        c.encryptBlock (feedback x (feedbackEncrypt Block.xor c.encryptBlock x blocks))) := by
  induction blocks generalizing x with
  | nil => rfl
  | cons b blocks ih => rw [encryptLoop, ih, feedbackEncrypt, feedback_cons]

private theorem decryptTail_eq (x : Block BS) (tail : List (Block BS)) :
    c.decryptTail (c.encryptBlock x) tail =
      (feedbackDecrypt Block.xor c.encryptBlock x tail, c.encryptBlock (feedback x tail)) := by
  induction tail generalizing x with
  | nil => rfl
  | cons b tail ih => rw [decryptTail, ih, feedbackDecrypt, feedback_cons]

private theorem keystream_val (x : Block BS) (batch : Chunk (Block BS) LANES) :
    (keystream x batch).val = (x :: batch.val).take LANES := by
  change List.ofFn _ = _
  have hlength : ((x :: batch.val).take LANES).length = LANES := by
    rw [List.length_take, List.length_cons, batch.2]
    rfl
  apply List.ext_getElem (List.length_ofFn.trans hlength.symm)
  intro i hi hi'
  rw [List.getElem_ofFn, List.getElem_take, List.getElem_cons]
  rfl

private theorem lastOf_eq (x : Block BS) (batch : Chunk (Block BS) LANES) :
    lastOf batch = feedback x batch.val := by
  have hne : batch.val ≠ [] := by
    intro hnil
    have := batch.2
    rw [hnil] at this
    cases this
  unfold lastOf feedback
  rw [List.getLastD_eq_getLast?, List.getLast?_eq_getLast_of_ne_nil hne, Option.getD_some,
    List.getLast_eq_getElem, List.get_eq_getElem]
  congr 1
  exact congrArg (· - 1) batch.2.symm

private theorem batch_eq (x : Block BS) (batch : Chunk (Block BS) LANES) :
    List.zipWith Block.xor batch.val (c.encryptBlocks (keystream x batch)).val =
      feedbackDecrypt Block.xor c.encryptBlock x batch.val := by
  have hlength : (List.zipWith Block.xor batch.val ((x :: batch.val).map c.encryptBlock)).length =
      LANES := by
    rw [← feedbackDecrypt_eq_zipWith, length_feedbackDecrypt, batch.2]
  calc List.zipWith Block.xor batch.val (c.encryptBlocks (keystream x batch)).val
      = List.zipWith Block.xor (batch.val.take LANES)
          (((x :: batch.val).map c.encryptBlock).take LANES) := by
        rw [c.lanes, keystream_val, List.map_take, List.take_of_length_le (Nat.le_of_eq batch.2)]
    _ = feedbackDecrypt Block.xor c.encryptBlock x batch.val := by
        rw [← List.take_zipWith, List.take_of_length_le (Nat.le_of_eq hlength),
          feedbackDecrypt_eq_zipWith]

private theorem decryptBatches_eq (x : Block BS) (batches : List (Chunk (Block BS) LANES)) :
    c.decryptBatches x batches = (feedbackDecrypt Block.xor c.encryptBlock x (unchunk batches),
      feedback x (unchunk batches)) := by
  induction batches generalizing x with
  | nil => rfl
  | cons batch batches ih =>
    rw [decryptBatches, batch_eq, ih, unchunk_cons, feedbackDecrypt_append, feedback_append,
      lastOf_eq x]

private theorem decrypt_eq_serialPlaintext (buf : Bytes) :
    c.decrypt buf = c.serialPlaintext buf := by
  unfold decrypt serialPlaintext
  dsimp only
  have hcut := unchunk_asChunks (n := LANES) (asChunks BS buf).1
  rw [decryptBatches_eq]
  by_cases hdone : ((asChunks LANES (asChunks BS buf).1).2.isEmpty &&
      (asChunks BS buf).2.isEmpty) = true
  · rw [if_pos hdone]
    obtain ⟨htail, hrem⟩ : (asChunks LANES (asChunks BS buf).1).2 = [] ∧
        (asChunks BS buf).2 = [] := by simpa using hdone
    rw [htail, List.append_nil] at hcut
    rw [htail, hrem, List.append_nil, List.append_nil, hcut, xorInPlace_nil, List.append_nil]
  · rw [if_neg hdone, decryptTail_eq]
    dsimp only
    rw [← feedbackDecrypt_append, ← feedback_append, hcut]

private theorem encrypt_eq (buf : Bytes) :
    c.encrypt buf =
      let chunks := asChunks BS buf
      let blocks := feedbackEncrypt Block.xor c.encryptBlock c.initialVector chunks.1
      unchunk blocks ++ xorInPlace chunks.2 (c.encryptBlock (feedback c.initialVector blocks)).val := by
  unfold encrypt initialTbl
  dsimp only
  rw [encryptLoop_eq]

private theorem serialPlaintext_encrypt (buf : Bytes) :
    c.serialPlaintext (c.encrypt buf) = buf := by
  have hrest := length_rest_asChunks c.size_pos buf
  rw [encrypt_eq]
  unfold serialPlaintext
  dsimp only
  rw [asChunks_unchunk_append _ (by rw [length_xorInPlace]; exact hrest),
    feedbackDecrypt_feedbackEncrypt Block.xor_cancel, xorInPlace_cancel, unchunk_asChunks]

private theorem encrypt_serialPlaintext (buf : Bytes) :
    c.encrypt (c.serialPlaintext buf) = buf := by
  have hrest := length_rest_asChunks c.size_pos buf
  rw [encrypt_eq]
  unfold serialPlaintext
  dsimp only
  rw [asChunks_unchunk_append _ (by rw [length_xorInPlace]; exact hrest),
    feedbackEncrypt_feedbackDecrypt Block.xor_cancel, xorInPlace_cancel, unchunk_asChunks]

private theorem length_encrypt (buf : Bytes) : (c.encrypt buf).length = buf.length := by
  conv_rhs => rw [← unchunk_asChunks (n := BS) buf]
  rw [encrypt_eq]
  simp only [List.length_append, length_unchunk, length_feedbackEncrypt, length_xorInPlace]

def blockCrypt (c : CfbBlock BS) : Session.BlockCrypt where
  encrypt := c.encrypt
  decrypt := c.decrypt

theorem blockCrypt_lawful (c : CfbBlock BS) : (Session.PacketCrypt.block c.blockCrypt).Lawful := by
  intro packet
  refine ⟨c.length_encrypt packet, ?_⟩
  change c.decrypt (c.encrypt packet) = packet
  rw [c.decrypt_eq_serialPlaintext, serialPlaintext_encrypt]

end CfbBlock

/-- Packet CFB over any block function and any batch that works lane by lane: on every buffer,
decrypting undoes encrypting and encrypting undoes decrypting, and the batches compute the plaintext
of the serial mode. -/
theorem cfb_round_trip (c : CfbBlock BS) (buf : Bytes) :
    c.decrypt (c.encrypt buf) = buf ∧ c.encrypt (c.decrypt buf) = buf ∧
      c.decrypt buf = c.serialPlaintext buf := by
  refine ⟨?_, ?_, c.decrypt_eq_serialPlaintext buf⟩
  · rw [c.decrypt_eq_serialPlaintext]
    exact c.serialPlaintext_encrypt buf
  · rw [c.decrypt_eq_serialPlaintext]
    exact c.encrypt_serialPlaintext buf

example : (CfbBlock.serial (.inl rfl) fun b => ⟨b.val.drop 1 ++ b.val.take 1, by
      rw [List.length_append, List.length_drop, List.length_take, b.2]
      rfl⟩ : CfbBlock 8).encrypt (List.replicate 8 0) = [115, 79, 156, 18, 172, 27, 1, 167] := by
  decide

end Kcptun.Crypt

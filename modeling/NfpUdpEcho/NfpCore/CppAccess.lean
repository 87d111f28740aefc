import Mathlib.Data.UInt
import NfpUdpEcho.Framework.Access
import NfpUdpEcho.Transport.Target

/-!
# The CPP accesses of the library

The files of `user/nfpcore` above the transport reach the device through `nfp_cpp_readl`,
`nfp_cpp_readq` and `nfp_cpp_read` and the writes that belong to them (`nfp_cppcore.c`) alone. A
function of theirs is a program of such accesses. An access may fail, whatever the device: it
takes an area, and there may be none.

`muDevice` is the MU atomic engine that the locks of the library are in, as the library
describes it. What the other parts of the device answer is not said.
-/

namespace NfpUdpEcho

open Access

/-- An access through the library. -/
inductive CppOp where
  | readl (cppId : UInt32) (address : UInt64)
  | writel (cppId : UInt32) (address : UInt64) (value : UInt32)
  | readq (cppId : UInt32) (address : UInt64)
  | writeq (cppId : UInt32) (address : UInt64) (value : UInt64)
  | read (cppId : UInt32) (address : UInt64) (length : ℕ)
  | write (cppId : UInt32) (address : UInt64) (bytes : List UInt8)

/-- What it may answer. A word access that fails returns -1, and the error is what `errno` is
then; the error of `nfp_cpp_read` and `nfp_cpp_write` is what they return. -/
def CppOp.Answer : CppOp → Type
  | .readl _ _ => Except ℤ UInt32
  | .readq _ _ => Except ℤ UInt64
  | .read _ _ length => Except ℤ (Fin length → UInt8)
  | .writel _ _ _ | .writeq _ _ _ | .write _ _ _ => Except ℤ Unit

abbrev CppProg (α : Type) := Prog CppOp CppOp.Answer α

/-- The memory of the MU by its 32-bit words, at the addresses of their first bytes. -/
abbrev MuMemory := UInt64 → UInt32

/-- The byte at an address. -/
def MuMemory.byte (m : MuMemory) (a : UInt64) : UInt8 :=
  (m (a - a % 4) >>> (8 * (a % 4)).toUInt32).toUInt8

/-- `NFP_CPP_ID(target, 3, 0)`, `atomic_read`. -/
def mur (target : UInt8) : UInt32 := nfpCppId target.toUInt32 3 0

/-- `NFP_CPP_ID(target, 4, 0)`, `atomic_write`. -/
def muw (target : UInt8) : UInt32 := nfpCppId target.toUInt32 4 0

/-- `NFP_CPP_ID(target, 5, 3)`, `test_set_imm`. -/
def mus (target : UInt8) : UInt32 := nfpCppId target.toUInt32 5 3

/-- `NFP_CPP_TARGET_MU`. -/
def nfpCppTargetMu : UInt8 := 7

/-- The MU atomic engine. `test_set_imm` of an aligned word sets its low four bits and answers
what the word was. No other read of the library changes a word. A write of a word that is not one
of the engine's may change this word, and the others may change anything. -/
def muDevice : Device CppOp CppOp.Answer MuMemory
  | .readl cppId a, m, x, m' =>
    (∃ err, x = .error err ∧ m' = m) ∨
      (cppId = mur nfpCppTargetMu ∧ x = .ok (m a) ∧ m' = m) ∨
      (cppId = mus nfpCppTargetMu ∧ x = .ok (m a) ∧ m' = Function.update m a (m a ||| 0xf)) ∨
      (cppId ≠ mur nfpCppTargetMu ∧ cppId ≠ mus nfpCppTargetMu ∧ m' = m)
  | .writel cppId a value, m, x, m' =>
    (∃ err, x = .error err ∧ m' = m) ∨
      (cppId = muw nfpCppTargetMu ∧ x = .ok () ∧ m' = Function.update m a value) ∨
      (cppId ≠ muw nfpCppTargetMu ∧ ∀ b, b ≠ a → m' b = m b)
  | .readq _ _, m, _, m' => m' = m
  | .read cppId a _, m, x, m' =>
    (∃ err, x = .error err ∧ m' = m) ∨
      (cppId = mur nfpCppTargetMu ∧ x = .ok (fun j => m.byte (a + j.val.toUInt64)) ∧ m' = m) ∨
      (cppId ≠ mur nfpCppTargetMu ∧ m' = m)
  | .writeq _ _ _, _, _, _ | .write _ _ _, _, _, _ => True

/-- The engine when the accesses it knows do not fail. -/
def muAnswer : (op : CppOp) → MuMemory → op.Answer × MuMemory
  | .readl cppId a, m =>
    if cppId = mur nfpCppTargetMu then (.ok (m a), m)
    else if cppId = mus nfpCppTargetMu then (.ok (m a), Function.update m a (m a ||| 0xf))
    else (.error Errno.EINVAL, m)
  | .writel cppId a value, m =>
    if cppId = muw nfpCppTargetMu then (.ok (), Function.update m a value)
    else (.error Errno.EINVAL, m)
  | .read cppId a _, m =>
    if cppId = mur nfpCppTargetMu then (.ok fun j => m.byte (a + j.val.toUInt64), m)
    else (.error (-Errno.EINVAL), m)
  | .readq _ _, m => (.error Errno.EINVAL, m)
  | .writeq _ _ _, m => (.error Errno.EINVAL, m)
  | .write _ _ _, m => (.error (-Errno.EINVAL), m)

theorem muDevice_muAnswer (op : CppOp) (m : MuMemory) :
    muDevice op m (muAnswer op m).1 (muAnswer op m).2 := by
  cases op with
  | readl cppId a =>
    rw [muAnswer]
    split
    next h => exact .inr (.inl ⟨h, rfl, rfl⟩)
    next _ =>
      split
      next h => exact .inr (.inr (.inl ⟨h, rfl, rfl⟩))
      next _ => exact .inl ⟨_, rfl, rfl⟩
  | writel cppId a value =>
    rw [muAnswer]
    split
    next h => exact .inr (.inl ⟨h, rfl, rfl⟩)
    next _ => exact .inl ⟨_, rfl, rfl⟩
  | read cppId a length =>
    rw [muAnswer]
    split
    next h => exact .inr (.inl ⟨h, rfl, rfl⟩)
    next _ => exact .inl ⟨_, rfl, rfl⟩
  | readq cppId a => exact rfl
  | writeq cppId a value => trivial
  | write cppId a bytes => trivial

end NfpUdpEcho

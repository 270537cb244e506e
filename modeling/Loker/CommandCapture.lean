import Loker.LossyText
import Loker.SecretPatterns

/-! What is kept of a command's output: the bounded reading of a stream, its text, and the text
without the secrets that are known. -/

namespace Loker.CommandCapture

open ByteLines LossyText TextOps

section Streams

structure CapturedOutput where
  data : Bytes
  truncated : Bool
  elidedBytes : ℕ
  deriving DecidableEq, Repr

/-- What one reading after the other gives: bytes, no more of them at the end, or an error. -/
abbrev Reads := List (Option Bytes)

def drainStream : Reads → ℕ
  | [] => 0
  | none :: _ => 0
  | some chunk :: reads => if chunk = [] then 0 else chunk.length + drainStream reads

def readOn (maxBytes : ℕ) (data : Bytes) : Reads → CapturedOutput
  | [] => ⟨data, false, 0⟩
  | none :: _ => ⟨data, false, 0⟩
  | some chunk :: reads =>
      if chunk = [] then ⟨data, false, 0⟩
      else
        let remaining := maxBytes - data.length
        if remaining = 0 then ⟨data, true, chunk.length + drainStream reads⟩
        else
          let take := min chunk.length remaining
          if take < chunk.length then
            ⟨data ++ chunk.take take, true, (chunk.length - take) + drainStream reads⟩
          else readOn maxBytes (data ++ chunk.take take) reads

def readStreamBounded (reads : Reads) (maxBytes : ℕ) : CapturedOutput := readOn maxBytes [] reads

/-- What comes before the end or the first error. -/
def delivered : Reads → Bytes
  | [] => []
  | none :: _ => []
  | some chunk :: reads => if chunk = [] then [] else chunk ++ delivered reads

/-- The first bytes of an output that is known whole. -/
def capture (output : Bytes) (maxBytes : ℕ) : CapturedOutput :=
  ⟨output.take maxBytes, maxBytes < output.length, output.length - maxBytes⟩

def elidedText (n : ℕ) : List Char :=
  "…[truncated, ".toList ++ n.repr.toList ++ " bytes elided]".toList

def CapturedOutput.toReasonText (captured : CapturedOutput) : String :=
  if captured.truncated then
    String.ofList (decode captured.data ++ ' ' :: elidedText captured.elidedBytes)
  else String.ofList (decode captured.data)

variable {reads : Reads} {maxBytes : ℕ} {data : Bytes}

lemma drainStream_eq : drainStream reads = (delivered reads).length := by
  induction reads with
  | nil => rfl
  | cons read reads ih =>
    cases read with
    | none => rfl
    | some chunk =>
      rw [drainStream, delivered, ih]
      by_cases hchunk : chunk = []
      · rw [if_pos hchunk, if_pos hchunk]
        rfl
      · rw [if_neg hchunk, if_neg hchunk, List.length_append]

lemma readOn_eq (h : data.length ≤ maxBytes) :
    readOn maxBytes data reads = capture (data ++ delivered reads) maxBytes := by
  have hall : capture data maxBytes = ⟨data, false, 0⟩ := by
    unfold capture
    rw [List.take_of_length_le h, decide_eq_false (Nat.not_lt.mpr h), Nat.sub_eq_zero_of_le h]
  induction reads generalizing data with
  | nil =>
    rw [delivered, List.append_nil, hall]
    rfl
  | cons read reads ih =>
    cases read with
    | none =>
      rw [delivered, List.append_nil, hall]
      rfl
    | some chunk =>
      rw [readOn, delivered]
      by_cases hchunk : chunk = []
      · rw [if_pos hchunk, if_pos hchunk, List.append_nil, hall]
      have hpos : 0 < chunk.length := List.length_pos_iff.mpr hchunk
      rw [if_neg hchunk, if_neg hchunk, drainStream_eq]
      by_cases hfits : data.length + chunk.length ≤ maxBytes
      · have hremaining : ¬ maxBytes - data.length = 0 := by omega
        have hmin : min chunk.length (maxBytes - data.length) = chunk.length := by omega
        have hlength : (data ++ chunk).length ≤ maxBytes := by
          rw [List.length_append]
          exact hfits
        simp only [if_neg hremaining, hmin, lt_irrefl, if_false, List.take_length]
        rw [← List.append_assoc]
        apply ih hlength
        unfold capture
        rw [List.take_of_length_le hlength, decide_eq_false (Nat.not_lt.mpr hlength),
          Nat.sub_eq_zero_of_le hlength]
      · have htake : (data ++ (chunk ++ delivered reads)).take maxBytes =
            data ++ chunk.take (maxBytes - data.length) := by
          rw [List.take_append, List.take_of_length_le h,
            List.take_append_of_le_length (by omega)]
        have hlength : (data ++ (chunk ++ delivered reads)).length =
            data.length + (chunk.length + (delivered reads).length) := by
          rw [List.length_append, List.length_append]
        have hover : maxBytes < data.length + (chunk.length + (delivered reads).length) := by omega
        unfold capture
        rw [htake, hlength, decide_eq_true hover]
        by_cases hremaining : maxBytes - data.length = 0
        · have helided : chunk.length + (delivered reads).length =
              data.length + (chunk.length + (delivered reads).length) - maxBytes := by omega
          dsimp only
          rw [if_pos hremaining, hremaining, List.take_zero, List.append_nil]
          exact congrArg (CapturedOutput.mk data true) helided
        · have hmin : min chunk.length (maxBytes - data.length) = maxBytes - data.length := by
            omega
          have hlt : maxBytes - data.length < chunk.length := by omega
          have helided : chunk.length - (maxBytes - data.length) + (delivered reads).length =
              data.length + (chunk.length + (delivered reads).length) - maxBytes := by omega
          simp only [if_neg hremaining, hmin, if_pos hlt]
          rw [helided]

/-- However a stream comes in, its first bytes are kept and the others counted. -/
theorem readStreamBounded_eq (reads : Reads) (maxBytes : ℕ) :
    readStreamBounded reads maxBytes = capture (delivered reads) maxBytes :=
  readOn_eq (Nat.zero_le _)

end Streams

section Runs

inductive ExitStatus where
  | exited (code : ℤ)
  | signaled (signal : ℤ)
  deriving DecidableEq, Repr

def ExitStatus.code : ExitStatus → Option ℤ
  | .exited code => some code
  | .signaled _ => none

def ExitStatus.signal : ExitStatus → Option ℤ
  | .exited _ => none
  | .signaled signal => some signal

structure CommandRun where
  status : ExitStatus
  timedOut : Bool
  stdout : CapturedOutput
  stderr : CapturedOutput
  secretValues : List String
  deriving DecidableEq, Repr

/-- One known secret after the other, in the text without what looks like one. -/
def redactOutput (isWord : Char → Bool) (text : String) (secretValues : List String) : String :=
  secretValues.foldl (fun result secret =>
    if secret ≠ "" ∧ contains result secret = true then replaceAll result secret "[REDACTED]"
    else result) (SecretPatterns.redactSecrets isWord text)

end Runs

end Loker.CommandCapture

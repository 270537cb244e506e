import Loker.FileTree
import Loker.TextOps

/-! The files of a run directory: the manifest, the phase markers and the heartbeat, with the
serialization they rely on. -/

namespace Loker.RunFiles

open FileTree TextOps

instance charEncodable : Encodable Char :=
  Encodable.ofLeftInverse Char.toNat Char.ofNat Char.ofNat_toNat

instance stringEncodable : Encodable String :=
  Encodable.ofLeftInverse String.toList String.ofList fun _ => String.ofList_toList

section Manifest

def isValidOtherMd (s : String) : Bool := endsWith s ".md" && 3 < s.toList.length

/-- A markdown name of its own, not one of the names with a kind. -/
structure OtherMdName where
  name : String
  valid : isValidOtherMd name = true
  other : name ∉ ["design.md", "review.md", "plan.md"]
  deriving DecidableEq, Repr

instance : Encodable OtherMdName :=
  Encodable.ofLeftInjection (·.name)
    (fun s =>
      if h : isValidOtherMd s = true ∧ s ∉ ["design.md", "review.md", "plan.md"] then
        some ⟨s, h.1, h.2⟩
      else none)
    (fun n => dif_pos ⟨n.valid, n.other⟩)

inductive Kind where
  | designMd
  | reviewMd
  | planMd
  | otherMd (name : OtherMdName)
  | verifyJson
  | phaseResultJson
  | pendingJson
  | responseJson
  | summaryJson
  | changesDir
  | traceJsonl
  deriving DecidableEq, Repr, Encodable

inductive Producer where
  | single
  | parallel
  | escalating
  | verify
  | hitl
  deriving DecidableEq, Repr, Encodable

structure ManifestEntry where
  name : String
  kind : Kind
  schemaVersion : ℕ
  sha256 : String
  producer : Producer
  phase : Option String
  attempt : Option ℕ
  deriving DecidableEq, Repr, Encodable

structure Manifest where
  runId : String
  schemaVersion : ℕ
  workflowName : Option String
  entries : List ManifestEntry
  deriving DecidableEq, Repr, Encodable

def Manifest.new (runId : String) (workflowName : Option String) : Manifest :=
  ⟨runId, 1, workflowName, []⟩

end Manifest

section Markers

structure StartedMarker where
  phase : String
  attempt : ℕ
  deriving DecidableEq, Repr, Encodable

structure CompletedMarker where
  phase : String
  attempt : ℕ
  manifestEntrySha256 : String
  artefactPaths : List String
  deriving DecidableEq, Repr, Encodable

structure FailedMarker where
  phase : String
  attemptsMade : ℕ
  errorClass : String
  lastAttemptPath : String
  deriving DecidableEq, Repr, Encodable

structure FailureSummary where
  phase : String
  attempt : ℕ
  errorClass : String
  deriving DecidableEq, Repr, Encodable

structure Heartbeat where
  writerPid : ℤ
  writerHost : String
  tickAt : ℤ
  deriving DecidableEq, Repr, Encodable

/-- The fields of a completed marker that loading a run state reads. -/
structure CompletedFields where
  manifestEntrySha256 : String
  phase : Option String
  deriving DecidableEq, Repr, Encodable

end Markers

/-- File contents: their digest, and what the JSON library makes of them. -/
class RunFormat (B : Type) where
  sha256Hex : B → String
  ofText : String → B
  toText : B → Option String
  toTextLossy : B → String
  ofManifest : Manifest → B
  readManifest : B → Option Manifest
  ofStarted : StartedMarker → B
  readStarted : B → Option StartedMarker
  ofCompleted : CompletedMarker → B
  readCompleted : B → Option CompletedFields
  readCompletedHash : B → Option String
  ofFailed : FailedMarker → B
  ofSummary : FailureSummary → B
  readHeartbeat : B → Option Heartbeat
  readManifest_ofManifest : ∀ m, readManifest (ofManifest m) = some m
  readStarted_ofStarted : ∀ m, readStarted (ofStarted m) = some m
  readCompleted_ofCompleted : ∀ m,
    readCompleted (ofCompleted m) = some ⟨m.manifestEntrySha256, some m.phase⟩
  readCompletedHash_of_readCompleted : ∀ {b fields},
    readCompleted b = some fields → readCompletedHash b = some fields.manifestEntrySha256

attribute [simp] RunFormat.readManifest_ofManifest RunFormat.readStarted_ofStarted
  RunFormat.readCompleted_ofCompleted

section Doc

/-- File contents as what was written into them. -/
inductive Doc where
  | text (s : String)
  | manifest (m : Manifest)
  | started (m : StartedMarker)
  | completed (m : CompletedMarker)
  | failed (m : FailedMarker)
  | summary (s : FailureSummary)
  | heartbeat (h : Heartbeat)
  deriving DecidableEq, Repr, Encodable

/-- A digest without collisions: a text marked as such, or a number in unary. -/
def Doc.digest : Doc → String
  | .text s => String.ofList ('t' :: s.toList)
  | d => String.ofList (List.replicate (Encodable.encode d) 'n')

lemma Doc.digest_text (s : String) : (Doc.text s).digest = String.ofList ('t' :: s.toList) := rfl

lemma Doc.digest_of_ne_text {d : Doc} (h : ∀ s, d ≠ .text s) :
    d.digest = String.ofList (List.replicate (Encodable.encode d) 'n') := by
  cases d with
  | text s => exact absurd rfl (h s)
  | _ => rfl

lemma Doc.digest_text_ne {d : Doc} (s : String) (h : ∀ s, d ≠ .text s) :
    (Doc.text s).digest ≠ d.digest := by
  rw [digest_text, digest_of_ne_text h, ne_eq, String.ofList_inj]
  intro heq
  have hmem : 't' ∈ List.replicate (Encodable.encode d) 'n' := heq ▸ List.mem_cons_self
  exact absurd (List.eq_of_mem_replicate hmem) (by decide)

theorem Doc.digest_injective : Function.Injective Doc.digest := by
  intro d d' h
  by_cases hd : ∃ s, d = .text s
  · obtain ⟨s, rfl⟩ := hd
    by_cases hd' : ∃ s, d' = .text s
    · obtain ⟨s', rfl⟩ := hd'
      rw [digest_text, digest_text, String.ofList_inj, List.cons.injEq] at h
      rw [String.toList_inj.mp h.2]
    · exact absurd h (digest_text_ne s (not_exists.mp hd'))
  · by_cases hd' : ∃ s, d' = .text s
    · obtain ⟨s', rfl⟩ := hd'
      exact absurd h.symm (digest_text_ne s' (not_exists.mp hd))
    · rw [digest_of_ne_text (not_exists.mp hd), digest_of_ne_text (not_exists.mp hd'),
        String.ofList_inj] at h
      have hlen := congrArg List.length h
      simp only [List.length_replicate] at hlen
      exact Encodable.encode_injective hlen

instance : RunFormat Doc where
  sha256Hex := Doc.digest
  ofText := .text
  toText
    | .text s => some s
    | _ => none
  toTextLossy
    | .text s => s
    | _ => ""
  ofManifest := .manifest
  readManifest
    | .manifest m => some m
    | _ => none
  ofStarted := .started
  readStarted
    | .started m => some m
    | _ => none
  ofCompleted := .completed
  readCompleted
    | .completed m => some ⟨m.manifestEntrySha256, some m.phase⟩
    | _ => none
  readCompletedHash
    | .completed m => some m.manifestEntrySha256
    | _ => none
  ofFailed := .failed
  ofSummary := .summary
  readHeartbeat
    | .heartbeat h => some h
    | _ => none
  readManifest_ofManifest _ := rfl
  readStarted_ofStarted _ := rfl
  readCompleted_ofCompleted _ := rfl
  readCompletedHash_of_readCompleted {b fields} h := by
    cases b with
    | completed m =>
        obtain rfl := Option.some.inj h
        rfl
    | _ => cases h

end Doc

section Create

variable {B : Type} [RunFormat B]

def manifestPath (runDir : Path) : Path := runDir ++ ["manifest.json"]

def markersDir (runDir : Path) : Path := runDir ++ ["markers"]

def heartbeatPath (runDir : Path) : Path := runDir ++ ["heartbeat.json"]

/-- A new run directory; a directory that is there already is a collision. -/
def createRunDir (t : Disk B) (runDir : Path) (runId workflowName : String) : Option (Disk B) :=
  if occupied t runDir then none
  else do
    let t ← createDirAll t runDir
    let manifest := Manifest.new runId (some workflowName)
    let t ← writeFile t (manifestPath runDir) (RunFormat.ofManifest manifest)
    createDirAll t (runDir ++ ["attempts"])

/-- A new run directory holds an empty manifest, an empty directory of attempts and nothing
else. -/
lemma createRunDir_node {t u : Disk B} {runDir : Path} {runId workflowName : String}
    (h : createRunDir t runDir runId workflowName = some u) {q : Path} (hq : q ≠ []) :
    u.node (runDir ++ q) =
      if q = ["attempts"] then some .dir
      else if q = ["manifest.json"] then
        some (.file (RunFormat.ofManifest (Manifest.new runId (some workflowName))))
      else none := by
  unfold createRunDir at h
  split at h
  · cases h
  next habsent =>
  obtain ⟨t₁, hdir, h⟩ := Option.bind_eq_some_iff.mp h
  obtain ⟨t₂, hmanifest, hattempts⟩ := Option.bind_eq_some_iff.mp h
  have hnone : t.node runDir = none := by simpa [occupied] using habsent
  have hbelow : t.node (runDir ++ q) = none := node_below_none (List.prefix_append runDir q) hnone
  rw [createDirAll_node hattempts, writeFile_node hmanifest, createDirAll_node hdir, hbelow]
  have hpre : runDir ++ q <+: runDir ++ ["attempts"] ↔ q = ["attempts"] := by
    rw [List.prefix_append_right_inj]
    cases q with
    | nil => exact absurd rfl hq
    | cons s q => simp [List.cons_prefix_cons]
  have hself : ¬ runDir ++ q <+: runDir := by
    intro hle
    have hlen := hle.length_le
    rw [List.length_append] at hlen
    have hpos := List.length_pos_iff.mpr hq
    omega
  simp only [hpre, hself, manifestPath, List.append_cancel_left_eq, if_false]

end Create

end Loker.RunFiles

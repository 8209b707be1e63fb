import KernelModules.MP1.Status
import KernelModules.MP2.Reading

/-!
# The two status files

Both modules report their registry through a read callback with buffers of 2048 bytes.
Registration is not bounded by what fits them, and neither callback looks at the length it is
asked for.
-/

namespace KernelModules

/-- As long as every registration, and every callback of the first module, leaves a report that
fits, no read of either file prints or copies past its buffers. -/
theorem reports_fit {processes₁ : Int → Option Nat} {es₁ : List MP1.Event} {s₁ : MP1.State}
    (run₁ : Run MP1.step MP1.Fits (.init processes₁) es₁ s₁) {j : Nat}
    {processes₂ : Nat → Option MP2.Process} {es₂ : List MP2.Event} {s₂ : MP2.State}
    (run₂ : MP2.Reaches MP2.Fits j processes₂ es₂ s₂) :
    MP1.ReportFits s₁ ∧ MP2.ReportFits s₂ :=
  ⟨.of_width (MP1.textWidth_room run₁), .of_width (MP2.reportWidth_room run₂)⟩

/-- Two processes are registered with each module. -/
theorem reports_fit_two :
    ∃ s₁, Run MP1.step MP1.Fits (.init fun _ => some 12345)
        [.write ⟨bytes "7", true⟩, .write ⟨bytes "-8", true⟩, .callback] s₁ ∧
      s₁.list = [⟨12345, 7⟩, ⟨12345, -8⟩] ∧
    ∃ s₂, MP2.Reaches MP2.Fits 1 (fun _ => none)
        [.write (.text "R,7,500,86\n" 1), .write (.text "R,-5,300,43\n" 2)] s₂ ∧
      s₂.head.map MP2.Task.pid = [7, 4294967291] ∧ MP1.ReportFits s₁ ∧ MP2.ReportFits s₂ := by
  refine Run.exists_of_replay (fun s => s.list) (a := [⟨12345, 7⟩, ⟨12345, -8⟩]) (by decide)
    fun s₁ run₁ seen₁ => ⟨seen₁, ?_⟩
  refine Run.exists_of_replay (fun s => s.head.map MP2.Task.pid) (a := [7, 4294967291]) (by decide)
    fun s₂ run₂ seen₂ => ⟨seen₂, reports_fit run₁ run₂⟩

/-- A process registered 171 times with the first module, and one registered 1023 times with the
second, which admits it because it asks for no computation. -/
theorem reports_overrun :
    (¬ ∀ (processes : Int → Option Nat) (es : List MP1.Event) (s : MP1.State),
      Run MP1.step (fun _ _ => True) (.init processes) es s → MP1.ReportFits s) ∧
    ¬ ∀ (j : Nat) (processes : Nat → Option MP2.Process) (es : List MP2.Event) (s : MP2.State),
      MP2.Reaches MP2.Possible j processes es s → MP2.ReportFits s := by
  constructor
  · intro fits
    obtain ⟨es, run⟩ := MP1.registers_many 171
    have text := (fits _ es _ run).text
    rw [MP1.text_length, MP1.textWidth_replicate] at text
    exact absurd text (by decide)
  · intro fits
    obtain ⟨es, s, run, -, pids, -⟩ := MP2.registers_many 1023
    have whole := (fits 0 _ es s run).whole
    have count : width ((1023 : Nat) : Int) = 4 := by decide
    rw [MP2.report_width, pids, MP2.reportWidth_replicate, count] at whole
    exact absurd whole (by decide)

/-- Successive reads of the first file never do what they owe; those of the second do when the
report fits the buffers and the first read asks for all of it. -/
theorem read_contract_iff (s₁ : MP1.State) (calls₁ : List MP1.Read) (s₂ : MP2.State)
    (calls₂ : List MP2.Read) :
    (Contract (fun c offset => MP1.myread s₁ c.len offset c.kbuf) MP1.Read.len (MP1.report s₁)
        calls₁ ↔ calls₁ = []) ∧
    (Contract (fun c offset => MP2.myreadReply s₂ c.len offset c.tmpbuf c.buf) MP2.Read.len
        (MP2.report s₂.head) calls₂ ↔
      ∀ c ∈ calls₂.head?,
        (MP2.report s₂.head).length ≤ MP2.buffsize ∧ (MP2.report s₂.head).length ≤ c.len) :=
  ⟨MP1.contract_iff s₁ calls₁, MP2.contract_iff s₂ calls₂⟩

/-- The first file of an empty registry is read, and of the second, with nothing registered
either, one byte. -/
theorem read_contract_broken :
    (¬ ∀ (s : MP1.State) (calls : List MP1.Read),
      Contract (fun c offset => MP1.myread s c.len offset c.kbuf) MP1.Read.len (MP1.report s)
        calls) ∧
    ¬ ∀ (s : MP2.State) (calls : List MP2.Read),
      Contract (fun c offset => MP2.myreadReply s c.len offset c.tmpbuf c.buf) MP2.Read.len
        (MP2.report s.head) calls := by
  constructor
  · intro owed
    have read := owed (.init fun _ => none) [⟨4096, .replicate 2048 0, List.length_replicate⟩]
    exact absurd ((MP1.contract_iff _ _).mp read) (List.cons_ne_nil _ _)
  · intro owed
    have read := owed (.init 0 fun _ => none)
      [⟨1, .replicate 2048 0, .replicate 2048 0, List.length_replicate, List.length_replicate⟩]
    have short := ((MP2.contract_iff _ _).mp read _ rfl).2
    exact absurd short (by decide)

end KernelModules

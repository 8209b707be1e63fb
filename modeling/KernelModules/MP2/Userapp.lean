import KernelModules.Lib.Stdio
import KernelModules.MP2.Write

/-!
# The requests of `userapp`

`userapp` prints its requests with `%d`, the unsigned `period` and `computation` as well as the
pid. `fflush` hands each to the module as one write. `mywrite` finds in them the numbers that
were printed.
-/

namespace KernelModules.MP2

/-! ## The texts -/

def regist (currPid period computation : BitVec 32) : List UInt8 :=
  [82, 44] ++ (formatInt currPid.toInt ++ 44 :: (formatInt period.toInt ++ 44 ::
    (formatInt computation.toInt ++ [10])))

def yield (currPid : BitVec 32) : List UInt8 := [89, 44] ++ (formatInt currPid.toInt ++ [10])

def deregister (currPid : BitVec 32) : List UInt8 := [68, 44] ++ (formatInt currPid.toInt ++ [10])

example : regist 7 500 (-1) = bytes "R,7,500,-1\n" := by decide

/-! ## Splitting at commas -/

/-- No NUL and no comma. -/
def Plain (s : List UInt8) : Prop := ∀ b ∈ s, b ≠ 0 ∧ b ≠ 44

theorem plain_formatInt (i : Int) : Plain (formatInt i) :=
  fun b hb => ⟨formatInt_ne (by decide) (by decide) b hb, formatInt_ne (by decide) (by decide) b hb⟩

theorem Plain.newline {s : List UInt8} (h : Plain s) : Plain (s ++ [10]) := by
  intro b hb
  rcases List.mem_append.mp hb with hb | hb
  · exact h b hb
  · rw [List.mem_singleton.mp hb]
    decide

theorem findIdx_comma {field : List UInt8} (h : Plain field) : field.findIdx? (· == 44) = none :=
  List.findIdx?_eq_none_iff.mpr fun b hb => by simpa using (h b hb).2

theorem findchar_append (before : List UInt8) {field : List UInt8} (h : Plain field)
    (after : List UInt8) : findchar (before ++ (field ++ 44 :: after)) 44 before.length =
      some (before.length + field.length) := by
  have here : (44 :: after).findIdx? (· == 44) = some 0 := by simp [List.findIdx?_cons]
  rw [findchar, List.drop_left, List.findIdx?_append, findIdx_comma h, here]
  simp [Nat.add_comm]

theorem findchar_plain (before : List UInt8) {field : List UInt8} (h : Plain field) :
    findchar (before ++ field) 44 before.length = none := by
  rw [findchar, List.drop_left, findIdx_comma h]
  rfl

theorem set_at {before after : List UInt8} {b c : UInt8} {n : Nat} (h : n = before.length) :
    (before ++ b :: after).set n c = before ++ c :: after := by
  simp [h]

/-- The two commas that `mywrite` replaces by NULs. -/
theorem set_commas {before period after : List UInt8} {n : Nat} (h : n = before.length) :
    ((before ++ 44 :: (period ++ 44 :: after)).set n 0).set (n + 1 + period.length) 0 =
      before ++ 0 :: (period ++ 0 :: after) := by
  have shift :
      before ++ 0 :: (period ++ 44 :: after) = (before ++ 0 :: period) ++ 44 :: after := by simp
  have len : n + 1 + period.length = (before ++ 0 :: period).length := by
    simp only [h, List.length_append, List.length_cons]
    omega
  rw [set_at h, shift, set_at len]
  simp

/-- A field in memory, from its first byte to the NUL behind it. -/
theorem cstr_field {mem field : List UInt8} {n : Nat} (plain : Plain field)
    (before after : List UInt8) (split : mem = before ++ (field ++ 0 :: after))
    (h : n = before.length) : cstr (mem.drop n) = field := by
  rw [split, h, List.drop_left]
  exact cstr_append (fun b hb => (plain b hb).1) after

/-- What `kstrtoint` leaves in a variable that was 0. -/
def parsed (s : List UInt8) : Int := (kstrtoint s).getD 0

theorem parsed_newline {i : Int} (fits : fitsInt i = true) : parsed (formatInt i ++ [10]) = i := by
  rw [parsed, (kstrtoint_formatInt fits).2, Option.getD_some]

theorem parsed_formatInt {i : Int} (fits : fitsInt i = true) : parsed (formatInt i) = i := by
  rw [parsed, (kstrtoint_formatInt fits).1, Option.getD_some]

theorem fields_one {op : UInt8} {pid stack : List UInt8} {slab : Addr} (hop : op ≠ 0)
    (hpid : Plain pid) : (Write.mk ([op, 44] ++ pid) stack slab).fields = (parsed pid, 0, 0) := by
  have text : cstr (Write.mk ([op, 44] ++ pid) stack slab).buff = [op, 44] ++ pid := by
    apply cstr_append
    simpa [hop] using fun b hb => (hpid b hb).1
  have second : findchar ([op, 44] ++ pid) 44 2 = none := findchar_plain [op, 44] hpid
  have field : cstr ((Write.mk ([op, 44] ++ pid) stack slab).buff.drop 2) = pid :=
    cstr_append (fun b hb => (hpid b hb).1) stack
  simp only [Write.fields, text, second, field, parsed]

theorem fields_three {op : UInt8} {pid period computation stack : List UInt8} {slab : Addr}
    (hop : op ≠ 0) (hpid : Plain pid) (hperiod : Plain period) (hcomputation : Plain computation)
    (two : 2 ≤ computation.length) :
    (Write.mk ([op, 44] ++ (pid ++ 44 :: (period ++ 44 :: computation))) stack slab).fields =
      (parsed pid, parsed period, parsed computation) := by
  generalize hw : Write.mk ([op, 44] ++ (pid ++ 44 :: (period ++ 44 :: computation))) stack slab = w
  have buff :
      w.buff = ([op, 44] ++ pid) ++ 44 :: (period ++ 44 :: (computation ++ 0 :: stack)) := by
    simp [← hw, Write.buff]
  have text : cstr w.buff = [op, 44] ++ (pid ++ 44 :: (period ++ 44 :: computation)) := by
    rw [← hw]
    apply cstr_append
    simpa [hop, or_imp, forall_and] using
      ⟨fun b hb => (hpid b hb).1, fun b hb => (hperiod b hb).1, fun b hb => (hcomputation b hb).1⟩
  have second : findchar (cstr w.buff) 44 2 = some (pid.length + 2) := by
    rw [text, Nat.add_comm]
    exact findchar_append [op, 44] hpid _
  have third : findchar (cstr w.buff) 44 (pid.length + 2 + 1) =
      some (pid.length + 2 + 1 + period.length) := by
    have found := findchar_append ([op, 44] ++ pid ++ [44]) hperiod computation
    rw [text]
    simpa using found
  have long : (cstr w.buff).length > pid.length + 2 + 1 + period.length + 2 := by
    simp only [text, List.length_append, List.length_cons, List.length_nil]
    omega
  have marked : (w.buff.set (pid.length + 2) 0).set (pid.length + 2 + 1 + period.length) 0 =
      ([op, 44] ++ pid) ++ 0 :: (period ++ 0 :: (computation ++ 0 :: stack)) := by
    rw [buff, set_commas (by simp)]
  generalize hm :
    ([op, 44] ++ pid) ++ 0 :: (period ++ 0 :: (computation ++ 0 :: stack)) = m at marked
  have field₁ : cstr (m.drop 2) = pid :=
    cstr_field hpid [op, 44] (period ++ 0 :: (computation ++ 0 :: stack)) (by simp [← hm]) rfl
  have field₂ : cstr (m.drop (pid.length + 2 + 1)) = period :=
    cstr_field hperiod ([op, 44] ++ pid ++ [0]) (computation ++ 0 :: stack) (by simp [← hm])
      (by simp)
  have field₃ : cstr (m.drop (pid.length + 2 + 1 + period.length + 1)) = computation :=
    cstr_field hcomputation ([op, 44] ++ pid ++ [0] ++ period ++ [0]) stack (by simp [← hm])
      (by simp only [List.length_append, List.length_cons, List.length_nil]; omega)
  simp only [Write.fields, second, third, long, ↓reduceIte, marked, field₁, field₂, field₃, parsed]

/-! ## What they ask for -/

theorem fitsInt_toInt (x : BitVec 32) : fitsInt x.toInt = true :=
  fitsInt_iff.mpr ⟨x.le_toInt, BitVec.toInt_lt⟩

/-- A number from 2³¹ on is printed as a negative one and converted back. -/
theorem toU32_toInt (x : BitVec 32) : toU32 x.toInt = x.toNat := by
  have small := x.isLt
  rw [toU32, BitVec.toInt_eq_toNat_cond]
  split <;> omega

theorem regist_request (currPid period computation : BitVec 32) (stack : List UInt8) (slab : Addr) :
    (Write.mk (regist currPid period computation) stack slab).request =
      some (.register currPid.toInt period.toNat computation.toNat) := by
  have fields : (Write.mk (regist currPid period computation) stack slab).fields = _ :=
    fields_three (by decide) (plain_formatInt _) (plain_formatInt _) (plain_formatInt _).newline
      (by simpa using Nat.succ_le_of_lt (List.length_pos_iff.mpr (formatInt_ne_nil _)))
  simp only [Write.request, fields, parsed_formatInt (fitsInt_toInt _),
    parsed_newline (fitsInt_toInt _), toU32_toInt]
  rfl

theorem yield_request (currPid : BitVec 32) (stack : List UInt8) (slab : Addr) :
    (Write.mk (yield currPid) stack slab).request = some (.yield currPid.toInt) := by
  have fields : (Write.mk (yield currPid) stack slab).fields = _ :=
    fields_one (by decide) (plain_formatInt _).newline
  rw [Write.request, fields, parsed_newline (fitsInt_toInt _)]
  rfl

theorem deregister_request (currPid : BitVec 32) (stack : List UInt8) (slab : Addr) :
    (Write.mk (deregister currPid) stack slab).request = some (.deregister currPid.toInt) := by
  have fields : (Write.mk (deregister currPid) stack slab).fields = _ :=
    fields_one (by decide) (plain_formatInt _).newline
  rw [Write.request, fields, parsed_newline (fitsInt_toInt _)]
  rfl

/-- **Requests arrive as they were sent**, whatever lies behind the buffer on the stack. -/
theorem request_round_trip (s : State) (currPid period computation : BitVec 32)
    (stack : List UInt8) (slab : Addr) :
    mywrite s ⟨regist currPid period computation, stack, slab⟩ =
      .ok (regEntry .c slab s currPid.toInt period.toNat computation.toNat).2 ∧
    mywrite s ⟨yield currPid, stack, slab⟩ = yieldEntry s currPid.toInt ∧
    mywrite s ⟨deregister currPid, stack, slab⟩ = .ok (deregEntry .c s currPid.toInt).2 := by
  refine ⟨?_, ?_, ?_⟩
  · rw [mywrite, regist_request]
    rfl
  · rw [mywrite, yield_request]
    rfl
  · rw [mywrite, deregister_request]
    rfl

end KernelModules.MP2

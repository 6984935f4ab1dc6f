import Toal.Proofs.TermGrammar

/-!
# What terms do

An engine says what the operations of scripts do, in a monad of effects (`Engine`). With it
a term has a result, in the way that scripts evaluate: from left to right, each part once
(`Term.eval`). A member of an object is looked up only when its value is needed, and the
callee of a call before the arguments; the object is then a part of the call. Functions are
called where they stand or given to a call, and how often such a call evaluates the body is
for the engine to say.

The result depends on the names that are free in a term, and on nothing else
(`Term.eval_congr`).

What a call gets is the value of each argument, unless the argument is a function
(`Term.evalArgs_cons`, `Term.evalArgs_arrow`).
-/

namespace Toal.Script

/-- What a term comes to. -/
inductive Result (m : Type → Type) (V : Type)
  | value (v : V)
  /-- A function, by what it does with its arguments. -/
  | function (f : List V → m V)
  /-- A member of an object that has not been looked up. -/
  | member (object : V) (field : String)

/-- What the operations of scripts do. -/
structure Engine (m : Type → Type) (V : Type) where
  /-- The value of a name that is not bound by a function. -/
  name : String → m V
  number : String → m V
  quoted : String → m V
  array : List V → m V
  /-- A record with a single field. -/
  record : String → V → m V
  member : V → String → m V
  /-- A call of a value, on behalf of an object or of nothing. -/
  call : V → Option V → List (Result m V) → m V
  unary : Unary → V → m V
  binary : BinOp → V → V → m V
  /-- Whether a value passes for true. -/
  truth : V → Bool
  undefined : V
  /-- A function as a value. -/
  box : (List V → m V) → V

namespace Engine

variable {m : Type → Type} [Monad m] {V : Type} (E : Engine m V)

/-- The value of a result. -/
def get : Result m V → m V
  | .value v => pure v
  | .function f => pure (E.box f)
  | .member object field => E.member object field

/-- A result as an argument. -/
def pass : Result m V → m (Result m V)
  | .member object field => .value <$> E.member object field
  | r => pure r

/-- What a call does with its arguments, given the result of the callee. -/
def callee : Result m V → m (List (Result m V) → m V)
  | .value v => pure (E.call v none)
  | .function f => pure fun args => do f (← args.mapM E.get)
  | .member object field => return E.call (← E.member object field) (some object)

/-- The parameters of a function with the arguments they stand for. -/
def bind : List String → List V → List (String × V)
  | [], _ => []
  | x :: xs, [] => (x, E.undefined) :: bind xs []
  | x :: xs, v :: vs => (x, v) :: bind xs vs

end Engine

namespace Term

variable {m : Type → Type} [Monad m] {V : Type}

mutual

/-- The result of a term, given the values of bound names. -/
def eval (E : Engine m V) (env : List (String × V)) : Term → m (Result m V)
  | .name x => .value <$> ((env.lookup x).elim (E.name x) pure)
  | .number x => .value <$> E.number x
  | .quoted x => .value <$> E.quoted x
  | .group inner => inner.eval E env
  | .array elements => do
    let vs ← evalAll E env elements
    .value <$> E.array vs
  | .record field value => do
    let v ← E.get (← value.eval E env)
    .value <$> E.record field v
  | .member object field => do
    let v ← E.get (← object.eval E env)
    return .member v field
  | .call callee args => do
    let f ← E.callee (← callee.eval E env)
    let args ← evalArgs E env args
    .value <$> f args
  | .unary op operand => do
    let v ← E.get (← operand.eval E env)
    .value <$> E.unary op v
  | .binary op left right => do
    let l ← E.get (← left.eval E env)
    let r ← E.get (← right.eval E env)
    .value <$> E.binary op l r
  | .arrow params body =>
    pure (.function fun vs => do E.get (← body.eval E (E.bind params vs ++ env)))
  | .function params body =>
    pure (.function fun vs => evalBlock E (E.bind params vs ++ env) body)

/-- The values of terms. -/
def evalAll (E : Engine m V) (env : List (String × V)) : List Term → m (List V)
  | [] => return []
  | t :: ts => do
    let v ← E.get (← t.eval E env)
    let vs ← evalAll E env ts
    return v :: vs

/-- The results of arguments. -/
def evalArgs (E : Engine m V) (env : List (String × V)) : List Term → m (List (Result m V))
  | [] => return []
  | t :: ts => do
    let r ← E.pass (← t.eval E env)
    let rs ← evalArgs E env ts
    return r :: rs

/-- What a block comes to. -/
def evalBlock (E : Engine m V) (env : List (String × V)) : List Command → m V
  | [] => return E.undefined
  | .declare x init :: cs => do
    let v ← E.get (← init.eval E env)
    evalBlock E ((x, v) :: env) cs
  | .test condition body :: cs => do
    let v ← E.get (← condition.eval E env)
    if E.truth v then
      let _ ← E.get (← body.eval E env)
    evalBlock E env cs
  | .eval e :: cs => do
    let _ ← E.get (← e.eval E env)
    evalBlock E env cs

end

/-- The value of a term. -/
def value (E : Engine m V) (env : List (String × V)) (t : Term) : m V := do
  E.get (← t.eval E env)

/-! ## Free names -/

mutual

/-- The names in a term that are not bound in it. -/
def free : Term → List String
  | .name x => [x]
  | .number _ | .quoted _ => []
  | .group inner => inner.free
  | .array elements => freeAll elements
  | .record _ value => value.free
  | .member object _ => object.free
  | .call callee args => callee.free ++ freeAll args
  | .unary _ operand => operand.free
  | .binary _ left right => left.free ++ right.free
  | .arrow params body => body.free.filter (· ∉ params)
  | .function params body => (freeBlock body).filter (· ∉ params)

/-- The names in terms that are not bound in them. -/
def freeAll : List Term → List String
  | [] => []
  | t :: ts => t.free ++ freeAll ts

/-- The names in a block that are not bound in it. -/
def freeBlock : List Command → List String
  | [] => []
  | .declare x init :: cs => init.free ++ (freeBlock cs).filter (· ≠ x)
  | .test condition body :: cs => condition.free ++ (body.free ++ freeBlock cs)
  | .eval e :: cs => e.free ++ freeBlock cs

end

/-- Both give the names the same values. -/
def Agree (xs : List String) (env env' : List (String × V)) : Prop :=
  ∀ x ∈ xs, env.lookup x = env'.lookup x

/-- Environments agree on two lists of names if they agree on each. -/
theorem Agree.append {xs ys : List String} {env env' : List (String × V)} :
    Agree (xs ++ ys) env env' ↔ Agree xs env env' ∧ Agree ys env env' :=
  List.forall_mem_append

theorem lookup_cons_eq_none_iff {x y : String} {ys : List String} {v : V} {env : List (String × V)}
    (h : env.lookup x = none ↔ x ∉ ys) : ((y, v) :: env).lookup x = none ↔ x ∉ y :: ys := by
  rw [List.lookup_cons]
  by_cases hx : x = y
  · simp [hx]
  · have hne : (x == y) = false := by simpa using hx
    rw [hne, h]
    simp [hx]

omit [Monad m] in
/-- Parameters have values in a call, and other names do not. -/
theorem lookup_bind_eq_none_iff (E : Engine m V) (x : String) : ∀ (params : List String)
    (vs : List V), (E.bind params vs).lookup x = none ↔ x ∉ params
  | [], _ => by simp [Engine.bind]
  | y :: ys, [] => lookup_cons_eq_none_iff (lookup_bind_eq_none_iff E x ys [])
  | y :: ys, v :: vs => lookup_cons_eq_none_iff (lookup_bind_eq_none_iff E x ys vs)

omit [Monad m] in
/-- Environments that agree outside of the parameters agree once these are bound. -/
theorem Agree.bind {xs params : List String} {env env' : List (String × V)}
    (h : Agree (xs.filter (· ∉ params)) env env') (E : Engine m V) (vs : List V) :
    Agree xs (E.bind params vs ++ env) (E.bind params vs ++ env') := by
  intro x hx
  rw [List.lookup_append, List.lookup_append]
  by_cases hparam : x ∈ params
  · obtain ⟨v, hv⟩ := Option.ne_none_iff_exists'.1 fun hnone =>
      (lookup_bind_eq_none_iff E x params vs).1 hnone hparam
    rw [hv, Option.some_or, Option.some_or]
  · rw [h x (List.mem_filter.2 ⟨hx, by simpa using hparam⟩)]

/-- Environments that agree on all names but one agree once this one is bound. -/
theorem Agree.cons {xs : List String} {x : String} {env env' : List (String × V)}
    (h : Agree (xs.filter (· ≠ x)) env env') (v : V) :
    Agree xs ((x, v) :: env) ((x, v) :: env') := by
  intro y hy
  rw [List.lookup_cons, List.lookup_cons]
  by_cases hx : y = x
  · simp [hx]
  · rw [h y (List.mem_filter.2 ⟨hy, by simpa using hx⟩)]

mutual

/-- The result of a term depends on the values of its free names only. -/
theorem eval_congr (E : Engine m V) : ∀ (t : Term) {env env' : List (String × V)},
    Agree t.free env env' → t.eval E env = t.eval E env'
  | .name x, env, env', h => by rw [eval, eval, h x List.mem_cons_self]
  | .number _, _, _, _ => rfl
  | .quoted _, _, _, _ => rfl
  | .group inner, _, _, h => eval_congr E inner h
  | .array elements, _, _, h => by rw [eval, eval, evalAll_congr E elements h]
  | .record _ value, _, _, h => by rw [eval, eval, eval_congr E value h]
  | .member object _, _, _, h => by rw [eval, eval, eval_congr E object h]
  | .call callee args, _, _, h => by
    obtain ⟨hcallee, hargs⟩ := Agree.append.1 h
    rw [eval, eval, eval_congr E callee hcallee, evalArgs_congr E args hargs]
  | .unary _ operand, _, _, h => by rw [eval, eval, eval_congr E operand h]
  | .binary _ left right, _, _, h => by
    obtain ⟨hleft, hright⟩ := Agree.append.1 h
    rw [eval, eval, eval_congr E left hleft, eval_congr E right hright]
  | .arrow params body, _, _, h => by
    rw [eval, eval]
    simp only [fun vs => eval_congr E body (h.bind E vs)]
  | .function params body, _, _, h => by
    rw [eval, eval]
    simp only [fun vs => evalBlock_congr E body (h.bind E vs)]

/-- Terms have the same values where their free names do. -/
theorem evalAll_congr (E : Engine m V) : ∀ (ts : List Term) {env env' : List (String × V)},
    Agree (freeAll ts) env env' → evalAll E env ts = evalAll E env' ts
  | [], _, _, _ => rfl
  | t :: ts, _, _, h => by
    obtain ⟨ht, hts⟩ := Agree.append.1 h
    rw [evalAll, evalAll, eval_congr E t ht, evalAll_congr E ts hts]

/-- Arguments have the same values where their free names do. -/
theorem evalArgs_congr (E : Engine m V) : ∀ (ts : List Term) {env env' : List (String × V)},
    Agree (freeAll ts) env env' → evalArgs E env ts = evalArgs E env' ts
  | [], _, _, _ => rfl
  | t :: ts, _, _, h => by
    obtain ⟨ht, hts⟩ := Agree.append.1 h
    rw [evalArgs, evalArgs, eval_congr E t ht, evalArgs_congr E ts hts]

/-- A block does the same where its free names have the same values. -/
theorem evalBlock_congr (E : Engine m V) : ∀ (cs : List Command) {env env' : List (String × V)},
    Agree (freeBlock cs) env env' → evalBlock E env cs = evalBlock E env' cs
  | [], _, _, _ => rfl
  | .declare x init :: cs, _, _, h => by
    obtain ⟨hinit, hcs⟩ := Agree.append.1 h
    rw [evalBlock, evalBlock, eval_congr E init hinit]
    simp only [fun v => evalBlock_congr E cs (hcs.cons v)]
  | .test condition body :: cs, _, _, h => by
    obtain ⟨hcondition, hrest⟩ := Agree.append.1 h
    obtain ⟨hbody, hcs⟩ := Agree.append.1 hrest
    rw [evalBlock, evalBlock, eval_congr E condition hcondition, eval_congr E body hbody,
      evalBlock_congr E cs hcs]
  | .eval e :: cs, _, _, h => by
    obtain ⟨he, hcs⟩ := Agree.append.1 h
    rw [evalBlock, evalBlock, eval_congr E e he, evalBlock_congr E cs hcs]

end

/-! ## Values -/

/-- Whether the term is a function, maybe in parentheses. -/
def isFunction : Term → Bool
  | .group inner => inner.isFunction
  | .arrow _ _ | .function _ _ => true
  | .name _ | .number _ | .quoted _ | .array _ | .record _ _ | .member _ _ | .call _ _ | .unary _ _
  | .binary _ _ _ => false

-- Simplification uses these equations for side conditions, where they must not hold by `rfl`.
@[simp] theorem isFunction_name (x : String) : (name x).isFunction = false := by rw [isFunction]

@[simp] theorem isFunction_number (x : String) : (number x).isFunction = false := by
  rw [isFunction]

@[simp] theorem isFunction_record (field : String) (t : Term) :
    (record field t).isFunction = false := by
  rw [isFunction]

section Values

variable (E : Engine m V) (env : List (String × V))

@[simp] theorem evalArgs_nil : evalArgs E env [] = pure [] := rfl

@[simp] theorem evalBlock_nil : evalBlock E env [] = pure E.undefined := rfl

variable [LawfulMonad m]

@[simp] theorem value_name (x : String) :
    (name x).value E env = (env.lookup x).elim (E.name x) pure := by
  simp [value, eval, Engine.get]

@[simp] theorem value_number (x : String) : (number x).value E env = E.number x := by
  simp [value, eval, Engine.get]

@[simp] theorem value_record (field : String) (t : Term) :
    (record field t).value E env = t.value E env >>= E.record field := by
  simp [value, eval, Engine.get]

@[simp] theorem value_member (object : Term) (field : String) :
    (member object field).value E env = (do E.member (← object.value E env) field) := by
  simp [value, eval, Engine.get]

@[simp] theorem value_unary (op : Unary) (operand : Term) :
    (unary op operand).value E env = operand.value E env >>= E.unary op := by
  simp [value, eval, Engine.get]

@[simp] theorem value_binary (op : BinOp) (left right : Term) :
    (binary op left right).value E env = (do
      let l ← left.value E env
      let r ← right.value E env
      E.binary op l r) := by
  simp [value, eval, Engine.get]

/-- A member is called on behalf of its object. -/
@[simp] theorem value_call_member (object : Term) (field : String) (args : List Term) :
    (call (member object field) args).value E env = (do
      let o ← object.value E env
      let f ← E.member o field
      let rs ← evalArgs E env args
      E.call f (some o) rs) := by
  simp [value, eval, Engine.get, Engine.callee]

/-- A function is called where it stands. -/
@[simp] theorem value_call_function (params : List String) (body : List Command)
    (args : List Term) :
    (call (group (function params body)) args).value E env = (do
      let rs ← evalArgs E env args
      let vs ← rs.mapM E.get
      evalBlock E (E.bind params vs ++ env) body) := by
  simp [value, eval, Engine.get, Engine.callee]

/-- Passing on a term that is no function is passing on its value. -/
theorem eval_pass : ∀ {t : Term}, t.isFunction = false →
    (do E.pass (← t.eval E env)) = .value <$> t.value E env
  | .group inner, h => eval_pass (t := inner) h
  | .name _, _ | .number _, _ | .quoted _, _ | .array _, _ | .record _ _, _ | .member _ _, _
  | .call _ _, _ | .unary _ _, _ | .binary _ _ _, _ => by
    simp [value, eval, Engine.pass, Engine.get]

/-- What is no function is given to a call as a value. -/
@[simp] theorem evalArgs_cons {t : Term} (h : t.isFunction = false) (ts : List Term) :
    evalArgs E env (t :: ts) = (do
      let v ← t.value E env
      let rs ← evalArgs E env ts
      return .value v :: rs) := by
  rw [evalArgs, ← bind_assoc, eval_pass E env h, bind_map_left]

@[simp] theorem evalArgs_arrow (params : List String) (body : Term) (ts : List Term) :
    evalArgs E env (arrow params body :: ts) = (do
      let rs ← evalArgs E env ts
      return .function (fun vs => body.value E (E.bind params vs ++ env)) :: rs) := by
  simp [evalArgs, eval, Engine.pass, value]

@[simp] theorem evalBlock_declare (x : String) (init : Term) (cs : List Command) :
    evalBlock E env (.declare x init :: cs) = (do
      let v ← init.value E env
      evalBlock E ((x, v) :: env) cs) := by
  simp [evalBlock, value]

@[simp] theorem evalBlock_test (condition body : Term) (cs : List Command) :
    evalBlock E env (.test condition body :: cs) = (do
      let v ← condition.value E env
      if E.truth v then
        let _ ← body.value E env
      evalBlock E env cs) := by
  simp [evalBlock, value]

end Values

end Term

end Toal.Script

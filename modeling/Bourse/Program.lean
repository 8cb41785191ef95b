import Bourse.Statement

/-!
# Programs

What an analysis does to its surroundings, as data: it looks texts up in the cache and stores them,
asks statements, and enters and leaves the lock of a key. Nothing happens until a program is run, so
the same program can be run against a healthy backend, a faulty one, or together with others.
Programs are a lawful monad, and `run_bind` takes a run apart at any place.
-/

namespace Bourse

/-- What a collaborator gives back; a stalled one never answers. -/
inductive Reply (β : Type) where
  | answered (b : β)
  | refused (fault : Fault)
  | stalled

inductive Program (α : Type) where
  | done (a : α)
  /-- Looks a key up in the cache. -/
  | lookup (key : String) (next : Reply (Option String) → Program α)
  /-- Stores a text in the cache, with a time to live in seconds. -/
  | store (key text : String) (ttl : Option Nat) (next : Reply Unit → Program α)
  /-- Asks a statement. -/
  | ask (statement : Statement) (next : Except Fault (List Row) → Program α)
  /-- Waits for the lock of a key and holds it from then on. -/
  | enter (key : String) (next : Program α)
  /-- Gives the lock of a key back. -/
  | leave (key : String) (next : Program α)
  /-- Begins a computation of the caller's, and lets others run before it goes on. -/
  | compute (next : Program α)

namespace Program

variable {α β γ : Type}

def bind (p : Program α) (f : α → Program β) : Program β :=
  match p with
  | done a => f a
  | lookup key next => lookup key fun reply => (next reply).bind f
  | store key text ttl next => store key text ttl fun reply => (next reply).bind f
  | ask statement next => ask statement fun reply => (next reply).bind f
  | enter key next => enter key (next.bind f)
  | leave key next => leave key (next.bind f)
  | compute next => compute (next.bind f)

instance : Monad Program where
  pure := done
  bind := bind

@[simp]
theorem done_bind (a : α) (f : α → Program β) : (done a).bind f = f a := rfl

theorem bind_done (p : Program α) : p.bind done = p := by
  induction p with
  | done a => rfl
  | lookup key next ih => simp only [bind, ih]
  | store key text ttl next ih => simp only [bind, ih]
  | ask statement next ih => simp only [bind, ih]
  | enter key next ih => simp only [bind, ih]
  | leave key next ih => simp only [bind, ih]
  | compute next ih => simp only [bind, ih]

theorem bind_assoc (p : Program α) (f : α → Program β) (g : β → Program γ) :
    (p.bind f).bind g = p.bind fun a => (f a).bind g := by
  induction p with
  | done a => rfl
  | lookup key next ih => simp only [bind, ih]
  | store key text ttl next ih => simp only [bind, ih]
  | ask statement next ih => simp only [bind, ih]
  | enter key next ih => simp only [bind, ih]
  | leave key next ih => simp only [bind, ih]
  | compute next ih => simp only [bind, ih]

instance : LawfulMonad Program :=
  LawfulMonad.mk' Program (fun p => bind_done p) (fun _ _ => rfl) (fun p f g => bind_assoc p f g)

end Program

/-- What a program is run against: how each of its steps acts on a state. -/
structure Services (σ : Type) where
  lookup : String → σ → Reply (Option String) × σ
  store : String → String → Option Nat → σ → Reply Unit × σ
  ask : Statement → σ → Except Fault (List Row) × σ
  enter : String → σ → σ
  leave : String → σ → σ
  compute : σ → σ

/-- Runs a program from start to end with no other program beside it. -/
def Program.run {α σ : Type} (services : Services σ) : Program α → σ → α × σ
  | done a, s => (a, s)
  | lookup key next, s =>
    let (reply, s) := services.lookup key s
    (next reply).run services s
  | store key text ttl next, s =>
    let (reply, s) := services.store key text ttl s
    (next reply).run services s
  | ask statement next, s =>
    let (reply, s) := services.ask statement s
    (next reply).run services s
  | enter key next, s => next.run services (services.enter key s)
  | leave key next, s => next.run services (services.leave key s)
  | compute next, s => next.run services (services.compute s)

/-- A program that goes on runs its two parts one after the other. -/
theorem Program.run_bind {α β σ : Type} (services : Services σ) (p : Program α)
    (f : α → Program β) (s : σ) :
    (p.bind f).run services s = (f (p.run services s).1).run services (p.run services s).2 := by
  induction p generalizing s with
  | done a => rfl
  | lookup key next ih => simp only [bind, run, ih]
  | store key text ttl next ih => simp only [bind, run, ih]
  | ask statement next ih => simp only [bind, run, ih]
  | enter key next ih => simp only [bind, run, ih]
  | leave key next ih => simp only [bind, run, ih]
  | compute next ih => simp only [bind, run, ih]

/-- A program that may end in a fault. -/
abbrev Analysis (α : Type) := ExceptT Fault Program α

namespace Analysis

variable {α : Type}

def ofExcept (outcome : Except Fault α) : Analysis α :=
  ExceptT.mk (.done outcome)

/-- The outcome of an analysis as a value, so that something can be done whatever it is. -/
def attempt (a : Analysis α) : Analysis (Except Fault α) :=
  ExceptT.mk (a.run.bind fun outcome => .done (.ok outcome))

def lookup (key : String) : Analysis (Reply (Option String)) :=
  ExceptT.mk (.lookup key fun reply => .done (.ok reply))

def store (key text : String) (ttl : Option Nat) : Analysis (Reply Unit) :=
  ExceptT.mk (.store key text ttl fun reply => .done (.ok reply))

def ask (statement : Statement) : Analysis (List Row) :=
  ExceptT.mk (.ask statement .done)

def enter (key : String) : Analysis Unit :=
  ExceptT.mk (.enter key (.done (.ok ())))

def leave (key : String) : Analysis Unit :=
  ExceptT.mk (.leave key (.done (.ok ())))

/-- A computation of the caller's with a settled outcome. -/
def compute (outcome : Except Fault α) : Analysis α :=
  ExceptT.mk (.compute (.done outcome))

end Analysis

end Bourse

import Mathlib.Data.List.Basic

/-!
# One connection shared by many parties

Statements that change data join the implicit transaction of the connection, whoever executes
them, and stay in it until anyone commits. The connection sees its own pending statements.
-/

namespace DecisionMaker.Library

structure Connection (σ : Type*) where
  committed : List σ := []
  pending : List σ := []

namespace Connection
variable {σ : Type*}

def journal (c : Connection σ) : List σ := c.committed ++ c.pending

def execute (c : Connection σ) (statement : σ) : Connection σ :=
  { c with pending := c.pending ++ [statement] }

def commit (c : Connection σ) : Connection σ := ⟨c.journal, []⟩

def rollback (c : Connection σ) : Connection σ := { c with pending := [] }

@[simp] theorem journal_empty : ({} : Connection σ).journal = [] := rfl

@[simp] theorem execute_journal (c : Connection σ) (statement : σ) :
    (c.execute statement).journal = c.journal ++ [statement] :=
  (List.append_assoc _ _ _).symm

@[simp] theorem execute_committed (c : Connection σ) (statement : σ) :
    (c.execute statement).committed = c.committed := rfl

@[simp] theorem commit_committed (c : Connection σ) : c.commit.committed = c.journal := rfl

@[simp] theorem commit_journal (c : Connection σ) : c.commit.journal = c.journal :=
  List.append_nil _

@[simp] theorem commit_pending (c : Connection σ) : c.commit.pending = [] := rfl

@[simp] theorem rollback_journal (c : Connection σ) : c.rollback.journal = c.committed :=
  List.append_nil _

end Connection

end DecisionMaker.Library

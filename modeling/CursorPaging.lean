import CursorPaging.Main
import CursorPaging.Settings.Strict
import CursorPaging.Proofs.Text.Utf8
import CursorPaging.Proofs.Text.Base64
import CursorPaging.Proofs.Text.Percent
import CursorPaging.Proofs.FieldMap
import CursorPaging.Proofs.Position
import CursorPaging.Proofs.Position.Grammar
import CursorPaging.Proofs.Resume
import CursorPaging.Proofs.Traversal.Conservation
import CursorPaging.Proofs.Traversal.Drain
import CursorPaging.Proofs.Traversal.Truncation
import CursorPaging.Proofs.Traversal.Peeking
import CursorPaging.Proofs.Live.Coverage
import CursorPaging.Proofs.Live.Exact
import CursorPaging.Proofs.Table.Mirror
import CursorPaging.Proofs.HashKey
import CursorPaging.Proofs.KeyOrder
import CursorPaging.Proofs.Number.Rounding
import CursorPaging.Proofs.Number.Exact
import CursorPaging.Proofs.Number.Order
import CursorPaging.Proofs.Traversal.Final
import CursorPaging.Proofs.Traversal.Failing
import CursorPaging.Proofs.Traversal.UsedUp
import CursorPaging.Proofs.Table.Filed
import CursorPaging.Proofs.OtherPartition
import CursorPaging.Proofs.Traversal.States
import CursorPaging.Proofs.Table.Answer
import CursorPaging.Proofs.CommandLine.Seed
import CursorPaging.Proofs.Traversal.Pulls
import CursorPaging.Proofs.Table.Batches
import CursorPaging.Proofs.CommandLine.Chain
import CursorPaging.Proofs.Traversal.Lazy
import CursorPaging.Proofs.Source.Continuation
import CursorPaging.Proofs.Table.Resolve
import CursorPaging.Proofs.Table.PageCount
import CursorPaging.Proofs.CommandLine.SeedOrder
import CursorPaging.Proofs.Configuration
import CursorPaging.Proofs.Live.OwnTokens
import CursorPaging.Proofs.Position.Cut

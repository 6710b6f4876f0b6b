import CuteEVM.Shared.CallTree
import CuteEVM.Shared.Decoding
import CuteEVM.Shared.Execution
import CuteEVM.Shared.UndoLog
import CuteEVM.State.Snapshot
import CuteEVM.Shared.KeyedLoop
import CuteEVM.State.Commit
import CuteEVM.State.Reachable
import CuteEVM.State.Edits
import CuteEVM.State.Logs
import CuteEVM.State.Copy
import CuteEVM.State.Codes
import CuteEVM.State.Flush
import CuteEVM.State.Book
import CuteEVM.State.Facts
import CuteEVM.State.Twins
import CuteEVM.State.Persist
import CuteEVM.VM.Params
import CuteEVM.VM.Config
import CuteEVM.VM.Words
import CuteEVM.VM.MachineWords
import CuteEVM.VM.Contract
import CuteEVM.VM.Bitmap
import CuteEVM.VM.Frame
import CuteEVM.VM.GasTable
import CuteEVM.VM.GetHash
import CuteEVM.VM.Instructions
import CuteEVM.VM.JumpTable
import CuteEVM.VM.Precompiles
import CuteEVM.VM.OnSlices
import CuteEVM.VM.EVM
import CuteEVM.Proofs.Effects
import CuteEVM.Proofs.Decoding
import CuteEVM.Proofs.Simple
import CuteEVM.Proofs.Memory
import CuteEVM.Proofs.Pricing
import CuteEVM.Proofs.Calls
import CuteEVM.Proofs.Table
import CuteEVM.Proofs.Step
import CuteEVM.Proofs.Entry
import CuteEVM.Proofs.Runs
import CuteEVM.Proofs.Bounded
import CuteEVM.Theorems.Gas
import CuteEVM.Theorems.GetHash
import CuteEVM.Theorems.Bounds
import CuteEVM.Proofs.Journal
import CuteEVM.Theorems.Revert
import CuteEVM.Theorems.Create
import CuteEVM.Shared.Ledger
import CuteEVM.Theorems.Balance
import CuteEVM.Theorems.Static
import CuteEVM.Proofs.Mild
import CuteEVM.Proofs.Manner
import CuteEVM.Proofs.Analysis
import CuteEVM.Theorems.Jumps
import CuteEVM.Theorems.Bitmap
import CuteEVM.Proofs.Accounts
import CuteEVM.Theorems.Accounts
import CuteEVM.Shared.TwosComplement
import CuteEVM.Theorems.Words
import CuteEVM.Shared.Slices
import CuteEVM.Shared.Squaring
import CuteEVM.Proofs.Powers
import CuteEVM.Proofs.Stores
import CuteEVM.Proofs.Data
import CuteEVM.Proofs.ModExp
import CuteEVM.Theorems.ModExp
import CuteEVM.Theorems.Powers
import CuteEVM.Proofs.Fees
import CuteEVM.Proofs.NetPrices
import CuteEVM.Theorems.Prices
import CuteEVM.Theorems.Config
import CuteEVM.Proofs.Metering
import CuteEVM.Theorems.Memory
import CuteEVM.Theorems.Stores
import CuteEVM.Theorems.Storage
import CuteEVM.Theorems.ReturnData
import CuteEVM.Theorems.Rlp
import CuteEVM.Theorems.Abi
import CuteEVM.Shared.HeadTail
import CuteEVM.Abi.Types
import CuteEVM.Abi.Pack
import CuteEVM.Abi.Unpack
import CuteEVM.Abi.Values
import CuteEVM.Abi.Layout
import CuteEVM.Abi.Sizes
import CuteEVM.Abi.RoundTrip
import CuteEVM.Abi.Checked
import CuteEVM.Theorems.Unpacking
import CuteEVM.Shared.BigEndian
import CuteEVM.Shared.Rlp
import CuteEVM.Rlp.Encode
import CuteEVM.Rlp.Decode
import CuteEVM.Rlp.Writing
import CuteEVM.Rlp.Reading
import CuteEVM.Rlp.Output
import CuteEVM.Rlp.Raw
import CuteEVM.Rlp.ByteArrays
import CuteEVM.Rlp.ArrayReading
import CuteEVM.Theorems.ByteArrays
import CuteEVM.Rlp.Splitting
import CuteEVM.Rlp.Values
import CuteEVM.Theorems.Logs
import CuteEVM.Proofs.OnSlices
import CuteEVM.Theorems.OnSlices
import CuteEVM.Trie.Node
import CuteEVM.Trie.Trie
import CuteEVM.Trie.Codec
import CuteEVM.Trie.Contents
import CuteEVM.Trie.Shape
import CuteEVM.Trie.Updates
import CuteEVM.Trie.Database
import CuteEVM.Shared.LinkedList
import CuteEVM.Trie.FlushList
import CuteEVM.Trie.Releasing
import CuteEVM.Trie.Flushing
import CuteEVM.Theorems.Database
import CuteEVM.Shared.Totals
import CuteEVM.Trie.Sizes
import CuteEVM.Theorems.Tries

import Treasury.Address.Known
import Treasury.Proofs.DepositValue
import Treasury.Proofs.ExitPrice
import Treasury.Proofs.Spending
import Treasury.Proofs.WithdrawalValue
import Treasury.Proofs.ValueIdentity
import Treasury.Proofs.RegistryCustody
import Treasury.Proofs.Governed
import Treasury.Proofs.FeeLedger
import Treasury.Proofs.RoundTrip
import Treasury.Proofs.RebalanceValue
import Treasury.Proofs.FrozenFunds
import Treasury.Proofs.Privilege
import Treasury.Proofs.LegOrder
import Treasury.Proofs.DepositPaths
import Treasury.Proofs.Redemptions
import Treasury.Proofs.HonouredRun
import Treasury.Proofs.FixedSolvency
import Treasury.Proofs.Mirror
import Treasury.Proofs.ShareRate
import Treasury.Proofs.RoleChanges
import Treasury.Proofs.RoleLedger
import Treasury.Proofs.CallTree
import Treasury.Proofs.OrderlyCalls
import Treasury.Proofs.NoReentry
import Treasury.Proofs.PoolShares
import Treasury.Proofs.ShareBalances
import Treasury.Proofs.StandingApprovals
import Treasury.Proofs.Rankings
import Treasury.Proofs.DepositChoice
import Treasury.Proofs.CustodyGains
import Treasury.Proofs.Postings
import Treasury.Proofs.UserDeposit
import Treasury.Proofs.WithdrawalChoice
import Treasury.Proofs.UserRedemption
import Treasury.Proofs.SolverWithdrawal
import Treasury.Proofs.RosterList
import Treasury.Proofs.RegistryCalls
import Treasury.Proofs.Retargeting
import Treasury.Proofs.CustodyValue
import Treasury.Proofs.WindingDown
import Treasury.Proofs.ExternalRebalance
import Treasury.Proofs.RankedPools
import Treasury.Proofs.WithdrawalSearch
import Treasury.Proofs.PreviewAdjoints
import Treasury.Proofs.RateAdjoints
